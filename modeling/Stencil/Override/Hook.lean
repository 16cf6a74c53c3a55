import Stencil.Json.Writer
import Stencil.Override.Chain

/-!
# Hooks

Two functions through which templates consult a chain of providers. Both take the name of a
template, the `only` flag, the passed variables and the context; all but the name may be left out or
null. The name may be an array of names: the first hook renames each of them, the second one asks
with the first of them.
-/

namespace Stencil.Override

/-- The arguments of a hook (`HookArguments`). -/
structure HookArguments where
  /-- The name of the template, or an array of names. -/
  target : Value
  inclusion : Inclusion
deriving Repr, Inhabited

namespace HookArguments

/-- The `only` flag (the `only` of `parse`). -/
def flag : Option Value → Except Misuse Bool
  | none => .ok false
  | some .null => .ok false
  | some (.bool b) => .ok b
  | some other => .error (.flagNotBoolean (Json.write other))

/-- A mapping that may be left out (`mapping`). -/
def mapping (what : String) : Option Value → Except Misuse Context
  | none => .ok []
  | some .null => .ok []
  | some (.mapping fields) => .ok fields
  | some other => .error (.notMapping what (Json.write other))

/-- Reads an argument list (`parse`). -/
def ofValues : List Value → Except Misuse HookArguments
  | [] => .error .missingName
  | target :: rest =>
    if rest.length > 3 then .error (.tooManyArguments (rest.length + 1))
    else do
      let only ← flag rest[0]?
      let bindings ← mapping "with" rest[1]?
      let context ← mapping "context" rest[2]?
      .ok ⟨target, { bindings, context, only }⟩

end HookArguments

namespace Chain

variable {m : Type → Type} [Monad m]

/-- Renames the items of an array of names (the array case of `call_rename`). -/
def renameNames (c : Chain m) (inclusion : Inclusion) : List Value → ExceptT Fault m (List Value)
  | [] => pure []
  | .string name :: rest => do
    let name ← c.rename name inclusion
    let rest ← c.renameNames inclusion rest
    pure (.string name :: rest)
  | other :: _ => throw (.invalidArgument .template (.nameNotString (Json.write other)))

/-- The hook that answers the template to render (`call_rename`). -/
def callTemplate (c : Chain m) (arguments : List Value) : ExceptT Fault m Value :=
  match HookArguments.ofValues arguments with
  | .error misuse => throw (.invalidArgument .template misuse)
  | .ok ⟨.string name, inclusion⟩ => do
    let name ← c.rename name inclusion
    pure (.string name)
  | .ok ⟨.array names, inclusion⟩ => do
    let names ← c.renameNames inclusion names
    pure (.array names)
  | .ok ⟨other, _⟩ => throw (.invalidArgument .template (.notName (Json.write other)))

/-- The hook that answers the variables to pass (`call_rewrite_args`). -/
def callParameters (c : Chain m) (arguments : List Value) : ExceptT Fault m Value :=
  match HookArguments.ofValues arguments with
  | .error misuse => throw (.invalidArgument .parameters misuse)
  | .ok ⟨.string name, inclusion⟩ => do
    let bindings ← c.rebind name inclusion
    pure (.mapping bindings)
  | .ok ⟨.array (.string name :: _), inclusion⟩ => do
    let bindings ← c.rebind name inclusion
    pure (.mapping bindings)
  | .ok ⟨.array _, _⟩ => throw (.invalidArgument .parameters .arrayWithoutName)
  | .ok ⟨other, _⟩ => throw (.invalidArgument .parameters (.notName (Json.write other)))

/-- A hook of a chain. -/
def call (c : Chain m) : Hook → List Value → ExceptT Fault m Value
  | .template => c.callTemplate
  | .parameters => c.callParameters

end Chain

end Stencil.Override
