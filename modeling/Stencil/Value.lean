import Stencil.Dict
import Stencil.Number

/-!
# Values

The values of contexts, constants and function arguments. A mapping keeps its fields sorted by key,
so two mappings with the same fields are equal.
-/

namespace Stencil

/-- A value of a context or an expression. The fields of a mapping form a dictionary. -/
inductive Value where
  | null
  | bool (value : Bool)
  | number (value : Number)
  | string (value : String)
  | array (items : List Value)
  | mapping (fields : List (String × Value))
deriving Repr, Inhabited

/-- The variables a template sees (`Context`). -/
abbrev Context := Dict Value

namespace Value

/-- The word for the kind of a value in error messages (`type_name`). -/
def kind : Value → String
  | .null => "null"
  | .bool _ => "boolean"
  | .number _ => "number"
  | .string _ => "string"
  | .array _ => "array"
  | .mapping _ => "mapping"

/-- The text of a value in a print tag or a concatenation (`to_output`): `null` and `false` are
    empty, `true` is `1`. Arrays and mappings have none. -/
def printed? : Value → Option String
  | .null => some ""
  | .bool false => some ""
  | .bool true => some "1"
  | .number n => some n.text
  | .string s => some s
  | .array _ => none
  | .mapping _ => none

/-- A field of a mapping. -/
def field? (value : Value) (key : String) : Option Value :=
  match value with
  | .mapping fields => Dict.get? fields key
  | _ => none

end Value

end Stencil
