import Stencil.Engine.Failure
import Stencil.Engine.Settings

/-!
# Hosts

A host is what the rendering of a template may ask for: other templates, functions and settings.
Rendering is defined over any host, whether it looks templates up in a table or compiles and keeps
them.
-/

namespace Stencil

/-- A step of rendering, which may end in a failure. -/
abbrev Rendering (n : Type → Type) (α : Type) := ExceptT Failure n α

namespace Rendering

variable {n : Type → Type} {α : Type}

/-- A step that has ended already. -/
def of [Monad n] (result : Except Failure α) : Rendering n α := ExceptT.mk (pure result)

/-- A step that asks the host. -/
def ofAction (action : n (Except Failure α)) : Rendering n α := ExceptT.mk action

end Rendering

/-- A function that templates can call. -/
abbrev Function (m : Type → Type) := List Value → m (Except FunctionFault Value)

/-- What rendering may ask for (what a `Renderer` needs of its environment). The templates are
    trees, unless something else is said. -/
structure Host (n : Type → Type) (T : Type := Tree) where
  settings : Settings
  /-- The function of a name. -/
  function? : String → Option (Function n)
  /-- Whether a template is there. -/
  has : String → n Bool
  /-- The template of a name. -/
  load : String → n (Except Failure T)

namespace Host

/-- The template names that a value stands for (the names that `resolve` tries): one name, or an
    array of alternatives. -/
def candidates : Value → Except Misfit (List String)
  | .string name => .ok [name]
  | .array items => items.mapM fun
    | .string name => .ok name
    | other => .error (.nameNotString other.kind)
  | other => .error (.notName other.kind)

variable {n : Type → Type} [Monad n] {T : Type}

/-- The name of the first of some templates that is there. -/
def firstOf (host : Host n T) : List String → n (Option String)
  | [] => pure none
  | name :: rest => do
    if ← host.has name then pure (some name) else host.firstOf rest

/-- The first of some templates that is there (the search of `resolve`). -/
def find (host : Host n T) (names : List String) : Rendering n T := do
  match ← ExceptT.lift (host.firstOf names) with
  | some name => .ofAction (host.load name)
  | none => throw (.templateNotFound (", ".intercalate names))

/-- The template that a value names (`resolve`); of several ones, the first one that is there. -/
def resolve (host : Host n T) (value : Value) (span : Span) : Rendering n T :=
  match candidates value with
  | .error misfit => throw (.misfit misfit span)
  | .ok names => host.find names

end Host

end Stencil
