import Stencil.Engine.Environment
import Stencil.Override.Hook
import Stencil.Override.Routing

/-!
# The override extension

What makes an environment consult a chain of providers: the two hooks as functions, and the pass
that routes templates through them.
-/

namespace Stencil.Override

variable {m : Type → Type} [Monad m]

/-- A hook of a chain as a function (one of the `functions` of a `TemplateOverride`). -/
def Chain.function (c : Chain m) (hook : Hook) : Function m := fun arguments =>
  Except.mapError .override <$> (c.call hook arguments).run

/-- The extension of a chain (a `TemplateOverride`, by its `functions` and `node_visitors`). -/
def extension (c : Chain m) : Extension m where
  functions := [Hook.template, Hook.parameters].map fun hook => (hook.name, c.function hook)
  passes := [routing]

/-- An environment that consults a chain (`environment_with_overrides`). -/
def environment (loader : Loader m) (c : Chain m) : Environment m :=
  (Environment.ofLoader loader).install (extension c)

end Stencil.Override
