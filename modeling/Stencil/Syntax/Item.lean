import Stencil.Syntax.Expr

/-!
# Items

The tags of a source as they are nested, before they are assembled into a template tree.
-/

namespace Stencil

/-- The clauses that an include and an embed share (`IncludeArguments`): `ignore missing`, `with`
    and `only`. -/
structure Clauses where
  /-- Whether a missing template renders nothing instead of failing. -/
  ignoreMissing : Bool := false
  /-- The expression of the `with` clause. -/
  bindings : Option Expr := none
  /-- Whether the template sees nothing but these variables. -/
  only : Bool := false
deriving Repr, Inhabited

/-- A piece of text or a tag with all that it encloses (`Item`). -/
inductive Item where
  | text (span : Span) (content : String)
  | print (span : Span) (expr : Expr)
  | block (span : Span) (name : String) (body : List Item)
  | «include» (span : Span) (target : Expr) (clauses : Clauses)
  | embed (span : Span) (target : Expr) (clauses : Clauses) (body : List Item)
  | «extends» (span : Span) (parent : Expr)
deriving Repr, Inhabited

namespace Item

/-- Where an item stands in the source. -/
def span : Item → Span
  | .text s _ => s
  | .print s _ => s
  | .block s _ _ => s
  | .«include» s _ _ => s
  | .embed s _ _ _ => s
  | .«extends» s _ => s

end Item

end Stencil
