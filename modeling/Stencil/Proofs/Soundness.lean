import Stencil.Proofs.Derivations
import Stencil.Proofs.Readings

/-!
# What is read follows the grammar

Whenever a function of the grammar succeeds, the tokens that it took derive the tree of its result.
A function that goes on with what was read before it, such as the one for attributes, turns a
derivation of that into one of the whole.

Results:
* `expr?_consumes`: expressions.
* `items_consumes`: items, with the tag that closes them.
* `items_none_ends`: items without such a tag go to the end of the source.
-/

namespace Stencil.Syntax

/-! ## Expressions -/

theorem literal?_consumes :
    Consumes literal? (Maybe fun ts e => Grammar.Atom ts e.term) := by
  refine .next? (.pure rfl) fun t span => ?_
  cases t with
  | string s => exact .inr ⟨_, rfl, .pure (.literal (.string s))⟩
  | number x =>
    cases x with
    | none => exact .inr ⟨_, rfl, .pure (.literal .tooLarge)⟩
    | some x => exact .inr ⟨_, rfl, .pure (.literal (.number x))⟩
  | bool b => exact .inr ⟨_, rfl, .pure (.literal (.bool b))⟩
  | null => exact .inr ⟨_, rfl, .pure (.literal .null)⟩
  | _ => exact .inl (.pure rfl)

theorem key?_consumes :
    Consumes key? (Maybe fun ts key => ∃ token, ts = [token] ∧ Grammar.Key token key) := by
  refine .next? (.pure rfl) fun t span => ?_
  cases t with
  | ident name => exact .inr ⟨_, rfl, .pure ⟨_, rfl, .ident name⟩⟩
  | string name => exact .inr ⟨_, rfl, .pure ⟨_, rfl, .string name⟩⟩
  | _ => exact .inl (.pure rfl)

/-- Attributes that follow an operand make a longer operand. -/
theorem attributes_consumes (n : Nat) (object : Expr) :
    Consumes (attributes n object) fun ts e =>
      ∀ front, Grammar.Operand front object.term → Grammar.Operand (front ++ ts) e.term := by
  induction n generalizing object with
  | zero => exact .refuse
  | succ n ih =>
    rw [attributes]
    refine .accept (.pure fun front h => ?_) fun _ => .ident fun name span => ?_
    · rw [List.append_nil]
      exact h
    · intro c e c' he
      obtain ⟨ts, hts, hrest⟩ := ih _ c e c' he
      refine ⟨ts, hts, fun front h => ?_⟩
      have hstep := hrest _ (Grammar.Operand.attribute name h)
      rwa [List.append_assoc] at hstep

/-- What the functions for expressions read with some bound on the steps. -/
structure ExpressionsConsume (n : Nat) : Prop where
  expr : Consumes (expr? n) (Maybe fun ts e => Grammar.Expression ts e.term)
  joined : ∀ left : Expr, Consumes (joined n left) fun ts e =>
    ∀ front, Grammar.Expression front left.term → Grammar.Expression (front ++ ts) e.term
  operand : Consumes (operand? n) (Maybe fun ts e => Grammar.Operand ts e.term)
  atom : Consumes (atom? n) (Maybe fun ts e => Grammar.Atom ts e.term)
  exprs : Consumes (exprs n) fun ts es => Grammar.Expressions ts (Expr.terms es)
  entries : Consumes (entries n) fun ts es => Grammar.Entries ts (Expr.termEntries es)

namespace ExpressionsConsume

variable {n : Nat} (ih : ExpressionsConsume n)
include ih

theorem succ_expr :
    Consumes (expr? (n + 1)) (Maybe fun ts e => Grammar.Expression ts e.term) := by
  rw [expr?]
  refine ih.operand.bindMaybe (.pure rfl) fun ts first hfirst => ?_
  refine (ih.joined first).bind fun us e he => .pure ?_
  rw [List.append_nil]
  exact he ts (.operand hfirst)

theorem succ_joined (left : Expr) :
    Consumes (Syntax.joined (n + 1) left) fun ts e =>
      ∀ front, Grammar.Expression front left.term → Grammar.Expression (front ++ ts) e.term := by
  rw [Syntax.joined]
  refine .accept (.pure fun front h => ?_) fun _ => ?_
  · rw [List.append_nil]
    exact h
  refine ih.operand.bindMaybe .refuse fun ts right hright => ?_
  intro c e c' he
  obtain ⟨us, hus, hrest⟩ := ih.joined _ c e c' he
  refine ⟨us, hus, fun front h => ?_⟩
  have hstep := hrest _ (Grammar.Expression.concat h hright)
  rwa [List.append_assoc] at hstep

theorem succ_operand :
    Consumes (operand? (n + 1)) (Maybe fun ts e => Grammar.Operand ts e.term) := by
  rw [operand?]
  refine ih.atom.bindMaybe (.pure rfl) fun ts base hbase => ?_
  refine (attributes_consumes n base).bind fun us e he => .pure ?_
  rw [List.append_nil]
  exact he ts (.atom hbase)

theorem succ_atom :
    Consumes (atom? (n + 1)) (Maybe fun ts e => Grammar.Atom ts e.term) := by
  rw [atom?]
  refine literal?_consumes.bindMaybe ?_ fun ts e he => .pure (by rwa [List.append_nil])
  refine .accept ?_ fun first => ?braces
  refine .accept ?_ fun first => ?brackets
  refine Consumes.ident?.bindMaybe ?_ fun ts found hts => ?identifier
  refine .accept (.pure rfl) fun first => ?parens
  case braces =>
    exact ih.entries.bind fun ts es hes => .expect fun last => .pure (.mapping hes)
  case brackets =>
    exact ih.exprs.bind fun ts es hes => .expect fun last => .pure (.array hes)
  case identifier =>
    obtain ⟨name, first⟩ := found
    subst hts
    refine .accept (.pure (.name name)) fun _ => ?_
    exact ih.exprs.bind fun ts es hes => .expect fun last => .pure (.call name hes)
  case parens =>
    exact ih.expr.bindMaybe .refuse fun ts e he => .expect fun last => .pure (.parens he)

theorem succ_exprs :
    Consumes (Syntax.exprs (n + 1)) fun ts es => Grammar.Expressions ts (Expr.terms es) := by
  rw [Syntax.exprs]
  refine ih.expr.bindMaybe (.pure .none) fun ts e he => ?_
  refine .accept (.pure ?_) fun _ => ?_
  · rw [List.append_nil]
    exact .last he
  refine ih.exprs.bind fun us es hes => .pure ?_
  rw [List.append_nil]
  exact .comma he hes

theorem succ_entries :
    Consumes (Syntax.entries (n + 1)) fun ts es =>
      Grammar.Entries ts (Expr.termEntries es) := by
  rw [Syntax.entries]
  refine key?_consumes.bindMaybe (.pure .none) ?_
  rintro _ key ⟨token, rfl, hkey⟩
  refine .expect fun _ => ih.expr.bindMaybe .refuse fun ts e he => ?_
  refine .accept (.pure ?_) fun _ => ?_
  · rw [List.append_nil]
    exact .last hkey he
  refine ih.entries.bind fun us es hes => .pure ?_
  rw [List.append_nil]
  exact .comma hkey he hes

end ExpressionsConsume

/-- By induction on the bound: every function calls the others with a smaller one. -/
theorem expressionsConsume (n : Nat) : ExpressionsConsume n := by
  induction n with
  | zero => exact ⟨.refuse, fun _ => .refuse, .refuse, .refuse, .refuse, .refuse⟩
  | succ n ih =>
    exact ⟨ih.succ_expr, ih.succ_joined, ih.succ_operand, ih.succ_atom, ih.succ_exprs,
      ih.succ_entries⟩

theorem expr?_consumes (n : Nat) :
    Consumes (expr? n) (Maybe fun ts e => Grammar.Expression ts e.term) :=
  (expressionsConsume n).expr

theorem expr_consumes (n : Nat) :
    Consumes (expr n) fun ts e => Grammar.Expression ts e.term := by
  refine (expr?_consumes n).bindMaybe .refuse fun ts e he => .pure ?_
  rw [List.append_nil]
  exact he

/-! ## Items -/

theorem bindings?_consumes (n : Nat) :
    Consumes (bindings? n) fun ts found => Grammar.Bindings ts (found.map Expr.term) := by
  refine .accept (.pure .absent) fun _ => ?_
  refine (expr_consumes n).bind fun ts e he => .pure ?_
  rw [List.append_nil]
  exact .present he

theorem clauses_consumes (n : Nat) :
    Consumes (clauses n) fun ts found => Grammar.Clauses ts found.options := by
  have hafter (missing : List Token) (ignoreMissing : Bool)
      (hmissing : Grammar.Words [.keyword .ignore, .keyword .missing] missing ignoreMissing) :
      Consumes (clausesAfter n ignoreMissing) fun ts found =>
        Grammar.Clauses (missing ++ ts) found.options := by
    refine (bindings?_consumes n).bind fun ts found hfound => ?_
    refine .accept (.pure ?_) fun _ => .pure ?_
    · rw [← List.append_assoc]
      exact .intro hmissing hfound .absent
    · rw [← List.append_assoc]
      exact .intro hmissing hfound .present
  rw [clauses_eq]
  exact .accept (hafter [] false .absent) fun _ => .expect fun _ => hafter _ true .present

/-- The tokens of the tag that closes some items, up to its keyword. -/
def closer : Option Keyword → List Token
  | none => []
  | some k => [.tagOpen, .keyword k]

/-- The tokens are derived up to the tag that closes the items. -/
def Derives (closing : Option Keyword) (ts : List Token) (found : List Item) : Prop :=
  ∃ body, ts = body ++ closer closing ∧ Grammar.Body body (Item.forms found)

section Tags

variable {closing : Option Keyword} {n : Nat}
  (ih : ∀ closing, Consumes (items closing n) (Derives closing))

include ih

/-- An item before items that are derived. -/
theorem itemsAfter_consumes {front : List Token} {item : Item} {spelled : List Token → List Token}
    (hitem : Grammar.Entry front item.form) (hfront : ∀ us, spelled us = front ++ us) :
    Consumes (itemsAfter closing n item) fun us all => Derives closing (spelled us) all := by
  refine (ih closing).bind ?_
  rintro _ rest ⟨body, rfl, hrest⟩
  refine .pure ⟨front ++ body, ?_, .cons hitem hrest⟩
  rw [hfront, List.append_nil, List.append_assoc]

theorem printTag_consumes (first : Span) :
    Consumes (printTag closing n first) fun ts => Derives closing (.printOpen :: ts) := by
  refine (expr_consumes n).bind fun ts e he => .expect fun last => ?_
  exact itemsAfter_consumes ih (.print he) (by simp)

theorem blockTag_consumes (first keyword : Span) :
    Consumes (blockTag closing n first keyword) fun ts =>
      Derives closing (.tagOpen :: .keyword .block :: ts) := by
  rw [blockTag_eq]
  refine .ident fun name _ => .expect fun _ => (ih (some .endBlock)).bind ?_
  rintro _ found ⟨ts, rfl, hfound⟩
  refine Consumes.ident?.bind fun us ending hending => .expect fun last => ?_
  split
  case isFalse => exact .throw
  case isTrue hname =>
    have hus : Grammar.Ending name us := by
      cases ending with
      | none =>
        cases hending
        exact .absent
      | some other =>
        obtain rfl := hname other rfl
        cases hending
        exact .present
    exact itemsAfter_consumes ih (.block name hfound hus) (by simp [Grammar.tag, closer])

theorem embedTag_consumes (first : Span) :
    Consumes (embedTag closing n first) fun ts =>
      Derives closing (.tagOpen :: .keyword .embed :: ts) := by
  refine (expr_consumes n).bind fun ts e he => (clauses_consumes n).bind fun us found hus => ?_
  refine .expect fun _ => (ih (some .endEmbed)).bind ?_
  rintro _ enclosed ⟨vs, rfl, hvs⟩
  refine .expect fun last => ?_
  exact itemsAfter_consumes ih (.embed he hus hvs) (by simp [Grammar.tag, closer])

theorem includeTag_consumes (first : Span) :
    Consumes (includeTag closing n first) fun ts =>
      Derives closing (.tagOpen :: .keyword .«include» :: ts) := by
  refine (expr_consumes n).bind fun ts e he => (clauses_consumes n).bind fun us found hus => ?_
  refine .expect fun last => ?_
  exact itemsAfter_consumes ih (.«include» he hus) (by simp [Grammar.tag])

theorem extendsTag_consumes (first : Span) :
    Consumes (extendsTag closing n first) fun ts =>
      Derives closing (.tagOpen :: .keyword .«extends» :: ts) := by
  refine (expr_consumes n).bind fun ts e he => .expect fun last => ?_
  exact itemsAfter_consumes ih (.«extends» he) (by simp [Grammar.tag])

end Tags

/-- By induction on the bound: what a tag encloses, and what follows it, is read with a smaller
    one. -/
theorem items_consumes (closing : Option Keyword) (n : Nat) :
    Consumes (items closing n) (Derives closing) := by
  induction n generalizing closing with
  | zero => exact .refuse
  | succ n ih =>
    unfold items
    refine .textOr ?_ (fun _ _ => rfl) ?other fun content _ =>
      itemsAfter_consumes ih (.text content) fun _ => rfl
    case other =>
      intro t span ht
      cases t with
      | text content => exact absurd rfl (ht content)
      | _ => rfl
    refine .accept ?_ fun first => printTag_consumes ih first
    refine .accept ?closed fun first => ?_
    case closed =>
      cases closing with
      | none => exact .ending (.pure ⟨[], rfl, .nil⟩)
      | some k => exact .refuse
    refine .accept ?_ fun keyword => blockTag_consumes ih first keyword
    refine .accept ?_ fun _ => embedTag_consumes ih first
    refine .accept ?_ fun _ => includeTag_consumes ih first
    refine .accept ?_ fun _ => extendsTag_consumes ih first
    cases closing with
    | none => exact .refuse
    | some k => exact .expect fun _ => .pure ⟨[], rfl, .nil⟩

/-- Items that no tag closes go on to the end. -/
theorem items_none_ends (n : Nat) : Ends (items none n) := by
  induction n with
  | zero => exact .refuse
  | succ n ih =>
    have hafter (item : Item) : Ends (itemsAfter none n item) := ih.map _
    have hblock (first keyword : Span) : Ends (blockTag none n first keyword) := by
      rw [blockTag_eq]
      refine .bind fun name => .bind fun _ => .bind fun body => .bind fun ending => ?_
      refine .bind fun last => ?_
      split
      · exact hafter _
      · exact .throw
    unfold items
    refine .bind fun next => ?_
    split
    · exact .bind fun _ => hafter _
    refine .accept ?_ fun first => .bind fun _ => .bind fun _ => hafter _
    refine .accept (.ending _) fun first => ?_
    refine .accept ?_ fun keyword => hblock first keyword
    refine .accept ?_ fun _ => ?embed
    refine .accept ?_ fun _ => .bind fun _ => .bind fun _ => .bind fun _ => hafter _
    refine .accept .refuse fun _ => .bind fun _ => .bind fun _ => hafter _
    case embed =>
      refine .bind fun _ => .bind fun _ => .bind fun _ => .bind fun _ => ?_
      exact .bind fun _ => hafter _

end Stencil.Syntax
