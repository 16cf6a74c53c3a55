import Stencil.Text.Span
import Stencil.Value

/-!
# Expressions

The expressions of print tags and of the clauses of other tags. Every expression carries the span
of the source it was read from.
-/

namespace Stencil

/-- An expression (`Expression`). -/
inductive Expr where
  /-- A literal. -/
  | constant (span : Span) (value : Value)
  /-- The value of a variable. -/
  | name (span : Span) (name : String)
  /-- A mapping with computed fields; a later entry replaces an earlier one of the same key. -/
  | mapping (span : Span) (entries : List (String × Expr))
  /-- An array with computed items. -/
  | array (span : Span) (items : List Expr)
  /-- A field of a mapping. -/
  | attribute (span : Span) (object : Expr) (name : String)
  /-- The printed texts of two values, joined. -/
  | concat (span : Span) (left right : Expr)
  /-- A call of a registered function. -/
  | call (span : Span) (function : String) (arguments : List Expr)
deriving Repr, Inhabited

namespace Expr

/-- Where an expression stands in the source. -/
def span : Expr → Span
  | .constant s _ => s
  | .name s _ => s
  | .mapping s _ => s
  | .array s _ => s
  | .attribute s _ _ => s
  | .concat s _ _ => s
  | .call s _ _ => s

/-- The name under which an expression reaches the whole context (`CONTEXT_VARIABLE`). -/
def contextName : String := "_context"

end Expr

end Stencil
