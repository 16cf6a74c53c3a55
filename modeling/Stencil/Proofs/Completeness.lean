import Stencil.Proofs.Soundness

/-!
# What the grammar derives is read

Whatever the rules derive is read, whatever stands after it, as long as that cannot be taken for a
continuation: an attribute, another operand or the arguments of a call. Every rule takes at least
one token and at most four steps lead from one rule to the next, so that four steps for each token
are enough.

The rules for attributes and for `~` grow to the left, while the functions for them go on to the
right. The statements about operands and expressions are therefore about any way to go on: if what
follows is read by the function that goes on, then all is read by the function that starts.

Results:
* `Grammar.Expression.reads`: expressions.
* `Grammar.Body.reads`: items up to the tag that closes them or to the end.
* `Syntax.itemsOf_derivation`: a source is read exactly if its tokens are derived, and its items
  are the one and only tree of theirs.
-/

namespace Stencil

/-! ## What follows -/

/-- The next token is none of these marks. -/
def Stops (marks : List Mark) (ts : List Token) : Prop := ∀ m ∈ marks, ts.head? ≠ some (.mark m)

theorem Stops.cons {marks : List Mark} {t : Token} (ts : List Token)
    (h : ∀ m ∈ marks, t ≠ .mark m) : Stops marks (t :: ts) := by
  intro m hm ht
  rw [List.head?_cons, Option.some.injEq] at ht
  exact h m hm ht

/-- The marks that go on after an atom, an operand and an expression. -/
def afterAtom : List Mark := [.parenOpen]
@[inherit_doc afterAtom]
def afterOperand : List Mark := [.parenOpen, .dot]
@[inherit_doc afterAtom]
def afterExpression : List Mark := [.parenOpen, .dot, .tilde]

namespace Grammar

/-! ## Every rule takes a token -/

theorem Atom.length_pos {ts : List Token} {t : Term} (h : Atom ts t) : 0 < ts.length := by
  cases h <;> simp

theorem Operand.length_pos {ts : List Token} {t : Term} (h : Operand ts t) : 0 < ts.length := by
  cases h with
  | atom h => exact h.length_pos
  | «attribute» name h => simp

theorem Expression.length_pos {ts : List Token} {t : Term} (h : Expression ts t) :
    0 < ts.length := by
  cases h with
  | operand h => exact h.length_pos
  | concat hl hr =>
    rw [List.length_append, List.length_cons]
    omega

theorem Entry.length_pos {ts : List Token} {form : Form} (h : Entry ts form) : 0 < ts.length := by
  cases h <;> simp [tag]

/-- Clauses and the end of their tag cannot be taken for a continuation of the target. -/
theorem Clauses.stops {ts : List Token} {options : Options} (h : Clauses ts options)
    (rest : List Token) : Stops afterExpression (ts ++ .tagClose :: rest) := by
  obtain ⟨ignoreMissing, bindings, only⟩ := options
  obtain ⟨hmissing, hbindings, honly⟩ := h
  cases hmissing <;> cases hbindings <;> cases honly <;> exact .cons _ (by decide)

end Grammar

namespace Syntax

/-- An expression is found, and it is such an expression. -/
def Found (result : Expr → Prop) : Option Expr → Prop
  | none => False
  | some e => result e

/-- The expression has this tree. -/
abbrev Has (t : Term) (e : Expr) : Prop := e.term = t

namespace Reads

variable {rest after : List Token} {result : Expr → Prop}

/-! ## Steps -/

theorem bindFound {α : Type} {before mid : List Token} {x : Reading (Option Expr)}
    {f : Option Expr → Reading α} {made : α → Prop} (hx : Reads before x (Found result) mid)
    (hf : ∀ e, result e → Reads mid (f (some e)) made after) :
    Reads before (x >>= f) made after := by
  refine hx.bind fun found hfound => ?_
  cases found with
  | none => exact hfound.elim
  | some e => exact hf e hfound

theorem bindNone {α β : Type} {before mid : List Token} {x : Reading (Option β)}
    {f : Option β → Reading α} {made : α → Prop} (hx : Reads before x (· = none) mid)
    (hf : Reads mid (f none) made after) : Reads before (x >>= f) made after := by
  refine hx.bind fun found hfound => ?_
  subst hfound
  exact hf

theorem literal {token : Token} {value : Value} (h : Grammar.Literal token value) :
    Reads (token :: rest) literal? (Found (Has (.constant value))) rest := by
  refine .peek fun span => ?_
  cases h <;> exact .advance (.pure rfl)

/-- Marks and identifiers are no literals. -/
theorem noLiteral {t : Token} (ht : (∃ m, t = .mark m) ∨ ∃ name, t = .ident name) :
    Reads (t :: rest) literal? (· = none) (t :: rest) := by
  refine .peek fun span => ?_
  obtain ⟨m, rfl⟩ | ⟨name, rfl⟩ := ht
  · exact .pure rfl
  · exact .pure rfl

theorem key {token : Token} {name : String} (h : Grammar.Key token name) :
    Reads (token :: rest) key? (· = some name) rest := by
  refine .peek fun span => ?_
  cases h <;> exact .advance (.pure rfl)

theorem noKey (m : Mark) : Reads (.mark m :: rest) key? (· = none) (.mark m :: rest) :=
  .peek fun _ => .pure rfl

/-- Another attribute. -/
theorem nextAttribute {n : Nat} {object : Expr} {name : String}
    (h : ∀ span, Reads rest (attributes n (.attribute span object name)) result after) :
    Reads (.mark .dot :: .ident name :: rest) (attributes (n + 1) object) result after := by
  rw [attributes]
  exact .accepted fun _ => .ident fun span => h _

/-- No more attributes. -/
theorem noAttribute {n : Nat} {e : Expr} (hrest : Stops afterOperand rest) (he : result e) :
    Reads rest (attributes (n + 1) e) result rest := by
  rw [attributes]
  exact .declined (hrest .dot (by decide)) (.pure he)

/-- No more operands. -/
theorem noOperand {n : Nat} {e : Expr} (hrest : Stops afterExpression rest) (he : result e) :
    Reads rest (joined (n + 1) e) result rest := by
  rw [joined]
  exact .declined (hrest .tilde (by decide)) (.pure he)

/-- The marks that close a list start no expression. -/
theorem noExpr (n : Nat) {m : Mark} (hm : m = .bracketClose ∨ m = .parenClose) :
    Reads (.mark m :: rest) (expr? (n + 3)) (· = none) (.mark m :: rest) := by
  have hdecline {mark : Mark} (hmark : mark = .braceOpen ∨ mark = .bracketOpen ∨
      mark = .parenOpen) : (Token.mark m :: rest).head? ≠ some (.mark mark) := by
    obtain rfl | rfl := hm <;> obtain rfl | rfl | rfl := hmark <;> simp
  have hatom : Reads (.mark m :: rest) (atom? (n + 1)) (· = none) (.mark m :: rest) := by
    rw [atom?]
    refine .bindNone (.noLiteral (.inl ⟨m, rfl⟩)) ?_
    refine .declined (hdecline (.inl rfl)) ?_
    refine .declined (hdecline (.inr (.inl rfl))) ?_
    refine .bindNone (.noIdent (by simp)) ?_
    exact .declined (hdecline (.inr (.inr rfl))) (.pure rfl)
  rw [expr?]
  refine .bindNone ?_ (.pure rfl)
  rw [operand?]
  exact .bindNone hatom (.pure rfl)

end Reads

end Syntax

/-! ## Expressions -/

namespace Grammar

open Syntax

mutual

theorem Expression.reads_on {ts : List Token} {t : Term} :
    Expression ts t → ∀ {n : Nat} {rest after : List Token} {result : Expr → Prop},
      4 * ts.length ≤ n + 1 → Stops afterOperand rest →
      (∀ m e, n ≤ m + ts.length → Has t e → Reads rest (joined m e) result after) →
      Reads (ts ++ rest) (expr? (n + 1)) (Found result) after
  | .operand h, n, rest, after, result, hn, hrest, hgo => by
    rw [expr?]
    refine .bindFound (h.reads (by omega) hrest) fun e he => ?_
    exact (hgo n e (by omega) he).bind fun e he => .pure he
  | .concat hl hr, n, rest, after, result, hn, hrest, hgo => by
    rw [List.length_append, List.length_cons] at hn hgo
    rw [List.append_assoc]
    refine hl.reads_on (by omega) (.cons _ (by decide)) fun m left hm hleft => ?_
    obtain ⟨m, rfl⟩ : ∃ k, m = k + 1 := ⟨m - 1, by omega⟩
    rw [joined]
    refine .accepted fun _ => .bindFound (hr.reads (by omega) hrest) fun right hright => ?_
    exact hgo m _ (by omega) (by rw [Has, Expr.term, hleft, hright])

theorem Operand.reads {ts : List Token} {t : Term} (h : Operand ts t) {n : Nat}
    {rest : List Token} (hn : 4 * ts.length ≤ n + 1) (hrest : Stops afterOperand rest) :
    Reads (ts ++ rest) (operand? n) (Found (Has t)) rest := by
  have hpos := h.length_pos
  obtain ⟨n, rfl⟩ : ∃ k, n = k + 1 := ⟨n - 1, by omega⟩
  refine h.reads_on (by omega) (fun m hm => hrest m (by revert m; decide)) fun m e hm he => ?_
  obtain ⟨m, rfl⟩ : ∃ k, m = k + 1 := ⟨m - 1, by omega⟩
  exact .noAttribute hrest he

theorem Operand.reads_on {ts : List Token} {t : Term} :
    Operand ts t → ∀ {n : Nat} {rest after : List Token} {result : Expr → Prop},
      4 * ts.length ≤ n + 2 → Stops afterAtom rest →
      (∀ m e, n ≤ m + ts.length → Has t e → Reads rest (attributes m e) result after) →
      Reads (ts ++ rest) (operand? (n + 1)) (Found result) after
  | .atom h, n, rest, after, result, hn, hrest, hgo => by
    rw [operand?]
    refine .bindFound (h.reads hn hrest) fun e he => ?_
    exact (hgo n e (by omega) he).bind fun e he => .pure he
  | .attribute name h, n, rest, after, result, hn, hrest, hgo => by
    rw [List.length_append, List.length_cons, List.length_singleton] at hn hgo
    rw [List.append_assoc]
    refine h.reads_on (by omega) (.cons _ (by decide)) fun m object hm hobject => ?_
    obtain ⟨m, rfl⟩ : ∃ k, m = k + 1 := ⟨m - 1, by omega⟩
    refine .nextAttribute fun span => ?_
    exact hgo m _ (by omega) (by rw [Has, Expr.term, hobject])

theorem Atom.reads {ts : List Token} {t : Term} :
    Atom ts t → ∀ {n : Nat} {rest : List Token}, 4 * ts.length ≤ n + 2 → Stops afterAtom rest →
      Reads (ts ++ rest) (atom? n) (Found (Has t)) rest
  | .literal h, n, rest, hn, hrest => by
    rw [List.length_singleton] at hn
    obtain ⟨n, rfl⟩ : ∃ k, n = k + 1 := ⟨n - 1, by omega⟩
    rw [atom?]
    exact .bindFound (.literal h) fun e he => .pure he
  | .mapping h, n, rest, hn, hrest => by
    simp only [List.length_append, List.length_cons, List.length_nil] at hn
    obtain ⟨n, rfl⟩ : ∃ k, n = k + 1 := ⟨n - 1, by omega⟩
    rw [atom?, List.append_assoc]
    refine .bindNone (.noLiteral (.inl ⟨_, rfl⟩)) ?_
    refine .accepted fun _ => (h.reads (by omega)).bind fun found hfound => ?_
    exact .expect fun _ => .pure (congrArg Term.mapping hfound)
  | .array h, n, rest, hn, hrest => by
    simp only [List.length_append, List.length_cons, List.length_nil] at hn
    obtain ⟨n, rfl⟩ : ∃ k, n = k + 1 := ⟨n - 1, by omega⟩
    rw [atom?, List.append_assoc]
    refine .bindNone (.noLiteral (.inl ⟨_, rfl⟩)) ?_
    refine .declined (by simp) ?_
    refine .accepted fun _ => (h.reads (by omega) (.inl rfl)).bind fun found hfound => ?_
    exact .expect fun _ => .pure (congrArg Term.array hfound)
  | .call function h, n, rest, hn, hrest => by
    simp only [List.length_append, List.length_cons, List.length_nil] at hn
    obtain ⟨n, rfl⟩ : ∃ k, n = k + 1 := ⟨n - 1, by omega⟩
    rw [atom?, List.append_assoc]
    refine .bindNone (.noLiteral (.inr ⟨_, rfl⟩)) ?_
    refine .declined (by simp) (.declined (by simp) ((Reads.ident? function).bind ?_))
    rintro _ ⟨span, rfl⟩
    refine .accepted fun _ => (h.reads (by omega) (.inr rfl)).bind fun found hfound => ?_
    exact .expect fun _ => .pure (congrArg (Term.call function) hfound)
  | .name name, n, rest, hn, hrest => by
    rw [List.length_singleton] at hn
    obtain ⟨n, rfl⟩ : ∃ k, n = k + 1 := ⟨n - 1, by omega⟩
    rw [atom?]
    refine .bindNone (.noLiteral (.inr ⟨_, rfl⟩)) ?_
    refine .declined (by simp) (.declined (by simp) ((Reads.ident? name).bind ?_))
    rintro _ ⟨span, rfl⟩
    exact .declined (hrest .parenOpen (by decide)) (.pure rfl)
  | .parens h, n, rest, hn, hrest => by
    simp only [List.length_append, List.length_cons, List.length_nil] at hn
    obtain ⟨n, rfl⟩ : ∃ k, n = k + 1 := ⟨n - 1, by omega⟩
    rw [atom?, List.append_assoc]
    refine .bindNone (.noLiteral (.inl ⟨_, rfl⟩)) ?_
    refine .declined (by simp) (.declined (by simp) (.bindNone (.noIdent (by simp)) ?_))
    refine .accepted fun _ => .bindFound (h.reads (by omega) (.cons _ (by decide))) fun e he => ?_
    exact .expect fun _ => .pure he

theorem Expression.reads {ts : List Token} {t : Term} (h : Expression ts t) {n : Nat}
    {rest : List Token} (hn : 4 * ts.length ≤ n) (hrest : Stops afterExpression rest) :
    Reads (ts ++ rest) (expr? n) (Found (Has t)) rest := by
  have hpos := h.length_pos
  obtain ⟨n, rfl⟩ : ∃ k, n = k + 1 := ⟨n - 1, by omega⟩
  refine h.reads_on hn (fun m hm => hrest m (by revert m; decide)) fun m e hm he => ?_
  obtain ⟨m, rfl⟩ : ∃ k, m = k + 1 := ⟨m - 1, by omega⟩
  exact .noOperand hrest he

theorem Expressions.reads {ts : List Token} {items : List Term} :
    Expressions ts items → ∀ {n : Nat} {m : Mark} {rest : List Token}, 4 * ts.length + 4 ≤ n →
      (m = .bracketClose ∨ m = .parenClose) →
      Reads (ts ++ .mark m :: rest) (exprs n) (fun found => Expr.terms found = items)
        (.mark m :: rest)
  | .none, n, m, rest, hn, hm => by
    obtain ⟨n, rfl⟩ : ∃ k, n = k + 4 := ⟨n - 4, by omega⟩
    rw [exprs]
    exact .bindNone (.noExpr n hm) (.pure rfl)
  | .last h, n, m, rest, hn, hm => by
    obtain ⟨n, rfl⟩ : ∃ k, n = k + 1 := ⟨n - 1, by omega⟩
    rw [exprs]
    have hstop : Stops afterExpression (.mark m :: rest) := by
      obtain rfl | rfl := hm <;> exact .cons _ (by decide)
    refine .bindFound (h.reads (by omega) hstop) fun e he => ?_
    refine .declined ?_ (.pure (by rw [Expr.terms, Expr.terms, he]))
    obtain rfl | rfl := hm <;> simp
  | .comma h hs, n, m, rest, hn, hm => by
    rw [List.length_append, List.length_cons] at hn
    obtain ⟨n, rfl⟩ : ∃ k, n = k + 1 := ⟨n - 1, by omega⟩
    rw [exprs, List.append_assoc]
    refine .bindFound (h.reads (by omega) (.cons _ (by decide))) fun e he => ?_
    refine .accepted fun _ => (hs.reads (by omega) hm).bind fun found hfound => .pure ?_
    rw [Expr.terms, he, hfound]

theorem Entries.reads {ts : List Token} {entries : List (String × Term)} :
    Entries ts entries → ∀ {n : Nat} {rest : List Token}, 4 * ts.length + 1 ≤ n →
      Reads (ts ++ .mark .braceClose :: rest) (Syntax.entries n)
        (fun found => Expr.termEntries found = entries) (.mark .braceClose :: rest)
  | .none, n, rest, hn => by
    obtain ⟨n, rfl⟩ : ∃ k, n = k + 1 := ⟨n - 1, by omega⟩
    rw [Syntax.entries]
    exact .bindNone (.noKey _) (.pure rfl)
  | .last hkey h, n, rest, hn => by
    simp only [List.length_cons] at hn
    obtain ⟨n, rfl⟩ : ∃ k, n = k + 1 := ⟨n - 1, by omega⟩
    rw [Syntax.entries]
    refine (Reads.key hkey).bind ?_
    rintro _ rfl
    refine .expect fun _ => .bindFound (h.reads (by omega) (.cons _ (by decide))) fun e he => ?_
    exact .declined (by simp) (.pure (by rw [Expr.termEntries, Expr.termEntries, he]))
  | .comma hkey h hs, n, rest, hn => by
    simp only [List.length_append, List.length_cons] at hn
    obtain ⟨n, rfl⟩ : ∃ k, n = k + 1 := ⟨n - 1, by omega⟩
    rw [Syntax.entries, List.append_assoc]
    refine (Reads.key hkey).bind ?_
    rintro _ rfl
    refine .expect fun _ => .bindFound (h.reads (by omega) (.cons _ (by decide))) fun e he => ?_
    refine .accepted fun _ => (hs.reads (by omega)).bind fun found hfound => .pure ?_
    rw [Expr.termEntries, he, hfound]

end

/-- An expression that has to be there. -/
theorem Expression.reads_expr {ts : List Token} {t : Term} (h : Expression ts t) {n : Nat}
    {rest : List Token} (hn : 4 * ts.length ≤ n) (hrest : Stops afterExpression rest) :
    Reads (ts ++ rest) (expr n) (Has t) rest :=
  .bindFound (h.reads hn hrest) fun _ he => .pure he

/-! ## Tags -/

theorem Bindings.reads {ts : List Token} {bindings : Option Term} (h : Bindings ts bindings)
    {n : Nat} {rest : List Token} (hn : 4 * ts.length ≤ n) (hrest : Stops afterExpression rest)
    (hwith : rest.head? ≠ some (.keyword .«with»)) :
    Reads (ts ++ rest) (bindings? n) (fun found => found.map Expr.term = bindings) rest := by
  cases h with
  | absent => exact .declined hwith (.pure rfl)
  | present h =>
    rw [List.length_cons] at hn
    refine .accepted fun _ => (h.reads_expr (by omega) hrest).bind fun e he => .pure ?_
    rw [Option.map_some, he]

theorem Clauses.reads {ts : List Token} {options : Options} (h : Clauses ts options) {n : Nat}
    (rest : List Token) (hn : 4 * ts.length ≤ n) :
    Reads (ts ++ .tagClose :: rest) (clauses n) (fun found => found.options = options)
      (.tagClose :: rest) := by
  obtain ⟨ignoreMissing, bindings, only⟩ := options
  obtain @⟨missing, given, final, _, hmissing, hbindings, honly⟩ := h
  simp only [List.length_append] at hn
  have hfinal : Stops afterExpression (final ++ .tagClose :: rest) ∧
      (final ++ .tagClose :: rest).head? ≠ some (.keyword .«with») := by
    cases honly
    · exact ⟨.cons _ (by decide), by simp⟩
    · exact ⟨.cons _ (by decide), by simp⟩
  have hafter : Reads (given ++ (final ++ .tagClose :: rest)) (clausesAfter n ignoreMissing)
      (fun found => found.options = ⟨ignoreMissing, bindings, only⟩) (.tagClose :: rest) := by
    refine (hbindings.reads (by omega) hfinal.1 hfinal.2).bind fun found hfound => ?_
    subst hfound
    cases honly with
    | absent => exact .declined (by simp) (.pure rfl)
    | present => exact .accepted fun _ => .pure rfl
  rw [clauses_eq, List.append_assoc, List.append_assoc]
  cases hmissing with
  | absent =>
    refine .declined ?_ hafter
    cases hbindings <;> cases honly <;> simp
  | present => exact .accepted fun _ => .expect fun _ => hafter

/-- Where items end, and what is left then: the end of the source, or a tag whose keyword starts
    no item. -/
inductive Closes : Option Keyword → List Token → List Token → Prop
  | source : Closes none [] []
  | tag {k : Keyword} (rest : List Token) : k ∉ tagKeywords →
      Closes (some k) (.tagOpen :: .keyword k :: rest) rest

/-- Nothing is read where items end. -/
theorem Closes.reads {closing : Option Keyword} {before after : List Token}
    (h : Closes closing before after) (n : Nat) :
    Reads before (items closing (n + 1)) (fun found => found = []) after := by
  unfold items
  cases h with
  | source =>
    refine .peekEnd (.declined (by simp) (.declined (by simp) ?_))
    exact .ending (.pure rfl)
  | @tag k rest hk =>
    have hdecline {l : Keyword} (hl : l ∈ tagKeywords) :
        (Token.keyword k :: after).head? ≠ some (.keyword l) := by
      intro h
      cases h
      exact hk hl
    refine .peek fun _ => .declined (by simp) (.accepted fun _ => ?_)
    refine .declined (hdecline (by decide)) (.declined (hdecline (by decide)) ?_)
    refine .declined (hdecline (by decide)) (.declined (hdecline (by decide)) ?_)
    exact .expect fun _ => .pure rfl

/-- The first item has this form, and the others are such items. -/
def Starts (form : Form) (result : List Item → Prop) (found : List Item) : Prop :=
  ∃ item rest, found = item :: rest ∧ item.form = form ∧ result rest

section

variable {ts us vs tail after : List Token} {t : Term} {options : Options} {body : List Form}
  {n : Nat} {closing : Option Keyword} {result : List Item → Prop}

/-- The item that was read, and those after it. -/
theorem reads_item {item : Item} {form : Form} (hgo : Reads tail (items closing n) result after)
    (h : item.form = form) :
    Reads tail (do
      let rest ← items closing n
      pure (item :: rest)) (Starts form result) after :=
  hgo.bind fun rest hrest => .pure ⟨item, rest, rfl, h, hrest⟩

theorem reads_text (content : String) (hgo : Reads tail (items closing n) result after) :
    Reads (.text content :: tail) (items closing (n + 1)) (Starts (.text content) result)
      after := by
  unfold items
  exact .peek fun span => .advance (reads_item hgo rfl)

theorem reads_print (h : Expression ts t) (hn : 4 * ts.length ≤ n)
    (hgo : Reads tail (items closing n) result after) :
    Reads (.printOpen :: (ts ++ .printClose :: tail)) (items closing (n + 1))
      (Starts (.print t) result) after := by
  unfold items
  refine .peek fun _ => .accepted fun first => ?_
  refine (h.reads_expr hn (.cons _ (by decide))).bind fun e he => ?_
  exact .expect fun last => reads_item hgo (congrArg Form.print he)

theorem reads_block {ending : List Token} (name : String) (hending : Ending name ending)
    (hbody : Reads (ts ++ .tagOpen :: .keyword .endBlock :: (ending ++ .tagClose :: tail))
      (items (some .endBlock) n) (fun found => Item.forms found = body)
      (ending ++ .tagClose :: tail))
    (hgo : Reads tail (items closing n) result after) :
    Reads (.tagOpen :: .keyword .block :: .ident name :: .tagClose ::
        (ts ++ .tagOpen :: .keyword .endBlock :: (ending ++ .tagClose :: tail)))
      (items closing (n + 1)) (Starts (.block name body) result) after := by
  unfold items
  refine .peek fun _ => .declined (by simp) (.accepted fun first => .accepted fun keyword => ?_)
  refine .ident fun _ => .expect fun _ => hbody.bind fun found hfound => ?_
  have hform (span : Span) : (Item.block span name found).form = .block name body :=
    congrArg (Form.block name) hfound
  cases hending with
  | absent =>
    refine .bindNone (.noIdent (by simp)) ?_
    exact .expect fun last => reads_item hgo (hform _)
  | present =>
    refine (Reads.ident? name).bind ?_
    rintro _ ⟨span, rfl⟩
    refine .expect fun last => ?_
    have hname : ¬ name ≠ name := fun h => h rfl
    simp only [if_neg hname]
    exact reads_item hgo (hform _)

theorem reads_embed (h : Expression ts t) (hts : 4 * ts.length ≤ n) (hclauses : Clauses us options)
    (hus : 4 * us.length ≤ n)
    (hbody : Reads (vs ++ .tagOpen :: .keyword .endEmbed :: .tagClose :: tail)
      (items (some .endEmbed) n) (fun found => Item.forms found = body) (.tagClose :: tail))
    (hgo : Reads tail (items closing n) result after) :
    Reads (.tagOpen :: .keyword .embed :: (ts ++ (us ++ .tagClose ::
        (vs ++ .tagOpen :: .keyword .endEmbed :: .tagClose :: tail))))
      (items closing (n + 1)) (Starts (.embed t options body) result) after := by
  unfold items
  refine .peek fun _ => .declined (by simp) (.accepted fun first => ?_)
  refine .declined (by simp) (.accepted fun _ => ?_)
  refine (h.reads_expr hts (hclauses.stops _)).bind fun e he => ?_
  refine (hclauses.reads _ hus).bind fun found hfound => .expect fun _ => ?_
  refine hbody.bind fun enclosed henclosed => .expect fun last => reads_item hgo ?_
  rw [Item.form, he, hfound, henclosed]

theorem reads_include (h : Expression ts t) (hts : 4 * ts.length ≤ n)
    (hclauses : Clauses us options) (hus : 4 * us.length ≤ n)
    (hgo : Reads tail (items closing n) result after) :
    Reads (.tagOpen :: .keyword .include :: (ts ++ (us ++ .tagClose :: tail)))
      (items closing (n + 1)) (Starts (.include t options) result) after := by
  unfold items
  refine .peek fun _ => .declined (by simp) (.accepted fun first => ?_)
  refine .declined (by simp) (.declined (by simp) (.accepted fun _ => ?_))
  refine (h.reads_expr hts (hclauses.stops _)).bind fun e he => ?_
  refine (hclauses.reads _ hus).bind fun found hfound => .expect fun last => reads_item hgo ?_
  rw [Item.form, he, hfound]

theorem reads_extends (h : Expression ts t) (hn : 4 * ts.length ≤ n)
    (hgo : Reads tail (items closing n) result after) :
    Reads (.tagOpen :: .keyword .extends :: (ts ++ .tagClose :: tail)) (items closing (n + 1))
      (Starts (.extends t) result) after := by
  unfold items
  refine .peek fun _ => .declined (by simp) (.accepted fun first => ?_)
  refine .declined (by simp) (.declined (by simp) (.declined (by simp) (.accepted fun _ => ?_)))
  refine (h.reads_expr hn (.cons _ (by decide))).bind fun e he => ?_
  exact .expect fun last => reads_item hgo (congrArg Form.extends he)

end

mutual

/-- A tag or a text, if what follows it is read. -/
theorem Entry.reads_on {ts : List Token} {form : Form} :
    Entry ts form → ∀ {n : Nat} {closing : Option Keyword} {tail after : List Token}
      {result : List Item → Prop}, 4 * ts.length ≤ n → Reads tail (items closing n) result after →
      Reads (ts ++ tail) (items closing (n + 1)) (Starts form result) after
  | .text content, n, closing, tail, after, result, hn, hgo => reads_text content hgo
  | .print h, n, closing, tail, after, result, hn, hgo => by
    simp only [List.length_append, List.length_cons, List.length_nil] at hn
    have hread := reads_print h (by omega) hgo
    simpa using hread
  | .block name hbody hending, n, closing, tail, after, result, hn, hgo => by
    simp only [tag, List.length_append, List.length_cons, List.length_nil] at hn
    have hread := reads_block name hending (hbody.reads (.tag _ (by decide)) (by omega)) hgo
    simpa [tag] using hread
  | .embed h hclauses hbody, n, closing, tail, after, result, hn, hgo => by
    simp only [tag, List.length_append, List.length_cons, List.length_nil] at hn
    have hread := reads_embed h (by omega) hclauses (by omega)
      (hbody.reads (.tag _ (by decide)) (by omega)) hgo
    simpa [tag] using hread
  | .include h hclauses, n, closing, tail, after, result, hn, hgo => by
    simp only [tag, List.length_append, List.length_cons, List.length_nil] at hn
    have hread := reads_include h (by omega) hclauses (by omega) hgo
    simpa [tag] using hread
  | .extends h, n, closing, tail, after, result, hn, hgo => by
    simp only [tag, List.length_append, List.length_cons, List.length_nil] at hn
    have hread := reads_extends h (by omega) hgo
    simpa [tag] using hread

theorem Body.reads {ts : List Token} {forms : List Form} :
    Body ts forms → ∀ {n : Nat} {closing : Option Keyword} {before after : List Token},
      Closes closing before after → 4 * ts.length + 1 ≤ n →
      Reads (ts ++ before) (items closing n) (fun found => Item.forms found = forms) after
  | .nil, n, closing, before, after, hclosing, hn => by
    obtain ⟨n, rfl⟩ : ∃ k, n = k + 1 := ⟨n - 1, by omega⟩
    refine (hclosing.reads n).mono fun found hfound => ?_
    rw [hfound, Item.forms]
  | .cons hentry hbody, n, closing, before, after, hclosing, hn => by
    have hpos := hentry.length_pos
    rw [List.length_append] at hn
    obtain ⟨n, rfl⟩ : ∃ k, n = k + 1 := ⟨n - 1, by omega⟩
    rw [List.append_assoc]
    refine (hentry.reads_on (by omega) (hbody.reads hclosing (by omega))).mono ?_
    rintro _ ⟨item, rest, rfl, hitem, hrest⟩
    rw [Item.forms, hitem, hrest]

end

end Grammar

namespace Syntax

/-- What is derived from the tokens of a source is what its items are. -/
theorem itemsOf_of_derivation {tokens : List Lexeme} {forms : List Form}
    (h : Grammar.Body (tokens.map (·.token)) forms) (stop : Nat) :
    (itemsOf tokens stop).map Item.forms = .ok forms := by
  have hbound : 4 * (tokens.map (·.token)).length + 1 ≤ bound tokens := by
    rw [List.length_map, bound]
    omega
  obtain ⟨found, c, hfound, hforms, -⟩ :=
    h.reads .source hbound { rest := tokens, stop := stop } (List.append_nil _).symm
  rw [itemsOf, hfound]
  exact congrArg Except.ok hforms

/-- The items of a source are derived from its tokens. -/
theorem derivation_of_itemsOf {tokens : List Lexeme} {stop : Nat} {found : List Item}
    (h : itemsOf tokens stop = .ok found) :
    Grammar.Body (tokens.map (·.token)) (Item.forms found) := by
  rw [itemsOf] at h
  cases hrun : items none (bound tokens) { rest := tokens, stop := stop } with
  | error e =>
    rw [hrun] at h
    cases h
  | ok r =>
    rw [hrun] at h
    cases h
    obtain ⟨ts, hts, body, hbody, hforms⟩ := items_consumes none _ _ r.1 r.2 hrun
    rw [items_none_ends _ _ r.1 r.2 hrun, List.append_nil, hbody, closer, List.append_nil] at hts
    rw [← hts] at hforms
    exact hforms

/-- A source is read exactly if the grammar derives its tokens. The items that are read are, but
    for their places, the only tree that it derives from them. -/
theorem itemsOf_derivation (tokens : List Lexeme) (stop : Nat) :
    ((∃ found, itemsOf tokens stop = .ok found) ↔
      ∃ forms, Grammar.Body (tokens.map (·.token)) forms) ∧
    ∀ forms, Grammar.Body (tokens.map (·.token)) forms ↔
      (itemsOf tokens stop).map Item.forms = .ok forms := by
  constructor
  · constructor
    · rintro ⟨found, h⟩
      exact ⟨Item.forms found, derivation_of_itemsOf h⟩
    · rintro ⟨forms, h⟩
      have hread := itemsOf_of_derivation h stop
      cases hitems : itemsOf tokens stop with
      | error e =>
        rw [hitems] at hread
        cases hread
      | ok found => exact ⟨found, rfl⟩
  · intro forms
    constructor
    · intro h
      exact itemsOf_of_derivation h stop
    · intro h
      cases hitems : itemsOf tokens stop with
      | error e =>
        rw [hitems] at h
        cases h
      | ok found =>
        rw [hitems] at h
        cases h
        exact derivation_of_itemsOf hitems

end Syntax

end Stencil
