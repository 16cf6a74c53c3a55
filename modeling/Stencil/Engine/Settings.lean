/-!
# Settings

What can be set for the rendering of templates.
-/

namespace Stencil

/-- How templates are rendered (`EngineConfig`). -/
structure Settings where
  /-- Whether an unknown variable or key is a failure instead of null. -/
  strictVariables : Bool := false
  /-- How deep templates may be nested by includes, embeds and parents. -/
  maxDepth : Nat := 64
deriving DecidableEq, Repr, Inhabited

end Stencil
