import Stencil.Decimal.Double
import Stencil.Text.Quoted
import Stencil.Text.Span
import Stencil.Value

/-!
# TOML values

The values of a document, each with its place. A date or time is kept as its text. A float that is
no finite number has no value here.

* `Value.toValue`: the same value for a template.
-/

namespace Stencil.Toml

/-- A value of a document. -/
inductive Value where
  | string (span : Span) (value : String)
  | integer (span : Span) (value : Int)
  | float (span : Span) (value : Option Double)
  | bool (span : Span) (value : Bool)
  | dateTime (span : Span) (text : String)
  | array (span : Span) (items : List Value)
  | table (span : Span) (fields : List (String × Value))
deriving Repr, Inhabited

namespace Value

/-- Where a value stands. -/
def span : Value → Span
  | .string s _ => s
  | .integer s _ => s
  | .float s _ => s
  | .bool s _ => s
  | .dateTime s _ => s
  | .array s _ => s
  | .table s _ => s

/-- The name of the kind of a value. -/
def kind : Value → String
  | .string .. => "string"
  | .integer .. => "integer"
  | .float .. => "float"
  | .bool .. => "boolean"
  | .dateTime .. => "datetime"
  | .array .. => "array"
  | .table .. => "inline table"

/-- A value as it is described to someone who expected another one. -/
def describe : Value → String
  | .string _ s => "string " ++ Text.quoted s
  | .integer _ n => s!"integer `{n}`"
  | .float _ (some x) => "floating point `" ++ String.ofList x.jsonText ++ "`"
  | .float _ none => "floating point `NaN`"
  | .bool _ true => "boolean `true`"
  | .bool _ false => "boolean `false`"
  | .dateTime .. => "map"
  | .array .. => "sequence"
  | .table .. => "map"

/-- The key under which the text of a date or time is found when it is read as a table. -/
def dateTimeKey : String := "$__toml_private_datetime"

/-- The fields of a value that can be read as a table. A date or time is a table with its text. -/
def fields? : Value → Option (List (String × Value))
  | .table _ fields => some fields
  | .dateTime s text => some [(dateTimeKey, .string s text)]
  | _ => none

mutual

/-- The value for a template. -/
def toValue : Value → Stencil.Value
  | .string _ s => .string s
  | .integer _ n => .number (.integer n)
  | .float _ (some x) => .number (.double x)
  | .float _ none => .null
  | .bool _ b => .bool b
  | .dateTime _ text => .mapping [(dateTimeKey, .string text)]
  | .array _ items => .array (toValues items)
  | .table _ fields => .mapping (Dict.ofList (toFields fields))

/-- The values for a template. -/
def toValues : List Value → List Stencil.Value
  | [] => []
  | v :: rest => v.toValue :: toValues rest

/-- The fields for a template. -/
def toFields : List (String × Value) → List (String × Stencil.Value)
  | [] => []
  | (k, v) :: rest => (k, v.toValue) :: toFields rest

end

end Value

end Stencil.Toml
