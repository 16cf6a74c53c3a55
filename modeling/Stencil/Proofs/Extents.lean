import Stencil.Proofs.Layout
import Stencil.Proofs.Placement

/-!
# The extents of expressions and items

Spans are made in several ways: a name has that of its token, a mapping goes from its opening brace
to its closing one, a joined expression from its first operand to its last one, and parentheses have
no part in the span of what they enclose. Nevertheless each of them goes from the start of a token
to the end of one, and holds the spans of its parts.

A step that reads tokens gets on from one position of the source to a later one. What it makes of
them stands in between, and so two things that are made one after the other do not overlap.

Specification: `Span.Sound` for a span that goes from a token to a token, `Expr.Faithful` for an
expression with the expressions in it.

Results:
* `Syntax.Advances.bind`, `Syntax.Advances.accept`, ...: the rules of steps that get on.
* `Syntax.expr_advances`, `Syntax.clauses_advances`: what is read inside a tag.
* `Syntax.items_advances`, `Syntax.parseItems_faithful`: the items of a source.
-/

namespace Stencil

/-! ## Specification -/

namespace Span

/-- One span lies in another one. -/
structure Within (inner outer : Span) : Prop where
  start : outer.start ≤ inner.start
  stop : inner.stop ≤ outer.stop

/-- One span ends before another one starts. -/
def Before (first second : Span) : Prop := first.stop ≤ second.start

/-- A span in a source with the given tokens. It is not empty, starts where a token does, and ends
    where a token does. -/
structure Sound (source : List Char) (tokens : List Lexeme) (span : Span) : Prop where
  nonempty : span.start < span.stop
  inside : span.stop ≤ Text.utf8Length source
  starts : ∃ l ∈ tokens, l.span.start = span.start
  stops : ∃ l ∈ tokens, l.span.stop = span.stop

/-- The text at a span of the source. -/
def Covers (source : List Char) (span : Span) (content : String) : Prop :=
  Text.slice? source span.start span.stop = some content.toList

end Span

namespace Expr

/-- The expressions that an expression is made of. -/
def parts : Expr → List Expr
  | .constant .. => []
  | .name .. => []
  | .mapping _ entries => entries.map Prod.snd
  | .array _ items => items
  | .attribute _ object _ => [object]
  | .concat _ left right => [left, right]
  | .call _ _ arguments => arguments

/-- An expression is in another one: it is that one, or is in one of its parts. -/
inductive Inside (sub : Expr) : Expr → Prop
  | self : Inside sub sub
  | part {child e : Expr} : child ∈ e.parts → Inside sub child → Inside sub e

/-- The spans of an expression, and of all expressions in it, are sound and hold those of the
    parts. -/
structure Faithful (source : List Char) (tokens : List Lexeme) (e : Expr) : Prop where
  sound : ∀ sub : Expr, sub.Inside e → sub.span.Sound source tokens
  nested : ∀ sub : Expr, sub.Inside e → ∀ part ∈ sub.parts, part.span.Within sub.span

end Expr

variable {source : List Char} {tokens : List Lexeme}

/-! ## Spans -/

namespace Span

theorem Within.refl (s : Span) : s.Within s := ⟨Nat.le_refl _, Nat.le_refl _⟩

theorem Within.trans {s t u : Span} (h : s.Within t) (h' : t.Within u) : s.Within u :=
  ⟨Nat.le_trans h'.start h.start, Nat.le_trans h.stop h'.stop⟩

/-- From one span to another one after it. -/
theorem Sound.upTo {first last : Span} (hfirst : first.Sound source tokens)
    (hlast : last.Sound source tokens) (h : first.stop ≤ last.start) :
    (first.upTo last).Sound source tokens where
  nonempty := by
    have hfirst := hfirst.nonempty
    have hlast := hlast.nonempty
    simp only [Span.upTo]
    omega
  inside := hlast.inside
  starts := hfirst.starts
  stops := hlast.stops

/-- What lies between two tokens lies in the span that goes from one to the other. -/
theorem Sound.between {first last : Span} {q : Nat} (hfirst : first.Sound source tokens)
    (hlast : last.Sound source tokens) (hq : q ≤ last.start) :
    Within ⟨first.stop, q⟩ (first.upTo last) := by
  have hfirst := hfirst.nonempty
  have hlast := hlast.nonempty
  constructor <;> simp only [Span.upTo] <;> omega

/-- From one span to another one after it, both are held. -/
theorem Sound.within_upTo {first last : Span} (hfirst : first.Sound source tokens)
    (hlast : last.Sound source tokens) (h : first.stop ≤ last.start) :
    first.Within (first.upTo last) ∧ last.Within (first.upTo last) := by
  have hfirst := hfirst.nonempty
  have hlast := hlast.nonempty
  refine ⟨⟨Nat.le_refl _, ?_⟩, ⟨?_, Nat.le_refl _⟩⟩
  · show first.stop ≤ last.stop
    omega
  · show first.start ≤ last.start
    omega

end Span

/-! ## Expressions in an extent -/

namespace Expr

/-- The expressions in an expression lie in its span. -/
theorem Faithful.within {e sub : Expr} (h : e.Faithful source tokens) (hsub : sub.Inside e) :
    sub.span.Within e.span := by
  induction hsub with
  | self => exact .refl _
  | @part child e hchild _ ih =>
    have hinner : child.Faithful source tokens :=
      ⟨fun inner hinner => h.sound inner (.part hchild hinner),
        fun inner hinner => h.nested inner (.part hchild hinner)⟩
    exact (ih hinner).trans (h.nested e .self child hchild)

/-- A faithful expression in an extent of the source. -/
structure StandsIn (source : List Char) (tokens : List Lexeme) (extent : Span) (e : Expr) :
    Prop where
  faithful : e.Faithful source tokens
  within : e.span.Within extent

theorem StandsIn.mono {extent extent' : Span} {e : Expr} (h : e.StandsIn source tokens extent)
    (hextent : extent.Within extent') : e.StandsIn source tokens extent' :=
  ⟨h.faithful, h.within.trans hextent⟩

theorem StandsIn.widen {start start' stop stop' : Nat} {e : Expr}
    (h : e.StandsIn source tokens ⟨start, stop⟩) (hstart : start' ≤ start) (hstop : stop ≤ stop') :
    e.StandsIn source tokens ⟨start', stop'⟩ :=
  h.mono ⟨hstart, hstop⟩

theorem StandsIn.sound {extent : Span} {e : Expr} (h : e.StandsIn source tokens extent) :
    e.span.Sound source tokens :=
  h.faithful.sound e .self

/-- An expression is faithful if its span is sound and its parts stand in it. -/
theorem faithful_of_parts {e : Expr} (hspan : e.span.Sound source tokens)
    (hparts : ∀ part ∈ e.parts, part.StandsIn source tokens e.span) :
    e.Faithful source tokens where
  sound sub hsub := by
    cases hsub with
    | self => exact hspan
    | part hchild hsub => exact (hparts _ hchild).faithful.sound sub hsub
  nested sub hsub part hpart := by
    cases hsub with
    | self => exact (hparts part hpart).within
    | part hchild hsub => exact (hparts _ hchild).faithful.nested sub hsub part hpart

/-- An expression that has the span of its only token. -/
theorem standsIn_token {e : Expr} {token : Span} {p : Nat} (hspan : e.span = token)
    (htoken : token.Sound source tokens) (hp : p ≤ token.start) (hparts : e.parts = []) :
    e.StandsIn source tokens ⟨p, token.stop⟩ := by
  subst hspan
  refine ⟨faithful_of_parts htoken fun part hpart => ?_, ⟨hp, Nat.le_refl _⟩⟩
  rw [hparts] at hpart
  cases hpart

/-- An expression that goes from one token to another, with its parts between them. -/
theorem standsIn_enclosed {e : Expr} {first last : Span} {p q : Nat}
    (hspan : e.span = first.upTo last) (hfirst : first.Sound source tokens)
    (hlast : last.Sound source tokens) (hp : p ≤ first.start) (hle : first.stop ≤ q)
    (hq : q ≤ last.start) (hparts : ∀ part ∈ e.parts, part.StandsIn source tokens ⟨first.stop, q⟩) :
    e.StandsIn source tokens ⟨p, last.stop⟩ := by
  have hinner : Span.Within ⟨first.stop, q⟩ e.span := hspan ▸ hfirst.between hlast hq
  have hsound : e.span.Sound source tokens := hspan ▸ hfirst.upTo hlast (Nat.le_trans hle hq)
  refine ⟨faithful_of_parts hsound fun part hpart => (hparts part hpart).mono hinner, ?_⟩
  rw [hspan]
  exact ⟨hp, Nat.le_refl _⟩

/-- A field of an expression, with the name of the field after that. -/
theorem standsIn_attribute {object : Expr} {span : Span} {start p : Nat}
    (hobject : object.StandsIn source tokens ⟨start, p⟩) (hspan : span.Sound source tokens)
    (h : p ≤ span.start) (name : String) :
    (Expr.attribute (object.span.upTo span) object name).StandsIn source tokens
      ⟨start, span.stop⟩ := by
  have hbefore : object.span.stop ≤ span.start := Nat.le_trans hobject.within.stop h
  have hsound := hobject.sound.upTo hspan hbefore
  have hwithin := hobject.sound.within_upTo hspan hbefore
  refine ⟨faithful_of_parts hsound ?_, ⟨hobject.within.start, Nat.le_refl _⟩⟩
  exact List.forall_mem_singleton.mpr ⟨hobject.faithful, hwithin.1⟩

/-- Two operands, one after the other. -/
theorem standsIn_concat {left right : Expr} {start p q stop : Nat}
    (hleft : left.StandsIn source tokens ⟨start, p⟩)
    (hright : right.StandsIn source tokens ⟨q, stop⟩) (h : p ≤ q) :
    (Expr.concat (left.span.upTo right.span) left right).StandsIn source tokens ⟨start, stop⟩ := by
  have hbefore : left.span.stop ≤ right.span.start :=
    calc left.span.stop ≤ p := hleft.within.stop
      _ ≤ q := h
      _ ≤ right.span.start := hright.within.start
  have hsound := hleft.sound.upTo hright.sound hbefore
  have hwithin := hleft.sound.within_upTo hright.sound hbefore
  refine ⟨faithful_of_parts hsound ?_, ⟨hleft.within.start, hright.within.stop⟩⟩
  refine List.forall_mem_cons.mpr ⟨⟨hleft.faithful, hwithin.1⟩, ?_⟩
  exact List.forall_mem_singleton.mpr ⟨hright.faithful, hwithin.2⟩

end Expr

/-! ## Steps that get on -/

namespace Syntax

variable {α β : Type} {p : Nat}

/-- Tokens of a source, one after the other from a position on. -/
structure Ahead (source : List Char) (tokens : List Lexeme) (p : Nat) (ls : List Lexeme) :
    Prop where
  sound : ∀ l ∈ ls, l.span.Sound source tokens
  texts : ∀ l ∈ ls, ∀ content, l.token = .text content → l.span.Covers source content
  after : ∀ l ∈ ls, p ≤ l.span.start
  ordered : ls.Pairwise Precedes

theorem Ahead.tail {l : Lexeme} {ls : List Lexeme} (h : Ahead source tokens p (l :: ls)) :
    Ahead source tokens l.span.stop ls where
  sound m hm := h.sound m (List.mem_cons_of_mem l hm)
  texts m hm := h.texts m (List.mem_cons_of_mem l hm)
  after := (List.pairwise_cons.mp h.ordered).1
  ordered := (List.pairwise_cons.mp h.ordered).2

/-- When the step succeeds with the tokens from `p` on, it gets to a later position, and its result
    fits this position. -/
def Advances (source : List Char) (tokens : List Lexeme) (p : Nat) (x : Reading α)
    (made : Nat → α → Prop) : Prop :=
  ∀ c a c', Ahead source tokens p c.rest → x c = .ok (a, c') →
    ∃ q, p ≤ q ∧ Ahead source tokens q c'.rest ∧ made q a

namespace Advances

variable {made : Nat → α → Prop}

theorem pure {a : α} (h : made p a) : Advances source tokens p (pure a) made := by
  intro c b c' hc hb
  cases hb
  exact ⟨p, Nat.le_refl p, hc, h⟩

theorem refuse : Advances source tokens p refuse made := by
  intro c b c' _ hb
  cases hb

theorem throw {e : Fault} : Advances source tokens p (throw e) made := by
  intro c b c' _ hb
  cases hb

theorem bind {x : Reading β} {f : β → Reading α} {read : Nat → β → Prop}
    (hx : Advances source tokens p x read)
    (hf : ∀ q b, p ≤ q → read q b → Advances source tokens q (f b) made) :
    Advances source tokens p (x >>= f) made := by
  intro c a c' hc h
  obtain ⟨b, mid, hb, ha⟩ := bind_ok.mp h
  obtain ⟨q, hpq, hmid, hread⟩ := hx c b mid hc hb
  obtain ⟨r, hqr, hc', hmade⟩ := hf q b hpq hread mid a c' hmid ha
  exact ⟨r, Nat.le_trans hpq hqr, hc', hmade⟩

/-- A step that may find nothing. -/
theorem bindOption {x : Reading (Option β)} {f : Option β → Reading α} {read : Nat → β → Prop}
    (hx : Advances source tokens p x fun q found => ∀ b ∈ found, read q b)
    (hnone : ∀ q, p ≤ q → Advances source tokens q (f none) made)
    (hsome : ∀ q b, p ≤ q → read q b → Advances source tokens q (f (some b)) made) :
    Advances source tokens p (x >>= f) made := by
  refine hx.bind fun q found hq hfound => ?_
  cases found with
  | none => exact hnone q hq
  | some b => exact hsome q b hq (hfound b rfl)

theorem found {read : Nat → α → Prop} {a : α} (h : read p a) :
    Advances source tokens p (Pure.pure (some a)) fun q found => ∀ b ∈ found, read q b := by
  refine pure ?_
  rintro b ⟨⟩
  exact h

theorem nothing {read : Nat → α → Prop} :
    Advances source tokens p (Pure.pure none) fun q found => ∀ b ∈ found, read q b := by
  refine pure ?_
  rintro b ⟨⟩

/-- A token that may be there. -/
theorem accept {t : Token} {f : Option Span → Reading α}
    (hnone : Advances source tokens p (f none) made)
    (hsome : ∀ span : Span, span.Sound source tokens → p ≤ span.start →
      Advances source tokens span.stop (f (some span)) made) :
    Advances source tokens p (Syntax.accept? t >>= f) made := by
  intro c a c' hc h
  obtain ⟨found, mid, hfound, ha⟩ := bind_ok.mp h
  obtain ⟨ls, hls, htaken⟩ := Takes.accept? t c found mid hfound
  cases found with
  | none =>
    cases htaken
    rw [List.nil_append] at hls
    exact hnone mid a c' (hls ▸ hc) ha
  | some span =>
    cases htaken
    rw [hls] at hc
    have hspan := hc.sound _ List.mem_cons_self
    have hp := hc.after _ List.mem_cons_self
    obtain ⟨q, hq, hc', hmade⟩ := hsome span hspan hp mid a c' hc.tail ha
    refine ⟨q, ?_, hc', hmade⟩
    have hnonempty := hspan.nonempty
    simp only at hp hnonempty
    omega

/-- A token that has to be there. -/
theorem expect {t : Token} {f : Span → Reading α}
    (h : ∀ span : Span, span.Sound source tokens → p ≤ span.start →
      Advances source tokens span.stop (f span) made) :
    Advances source tokens p (expect t >>= f) made := by
  have hread : Advances source tokens p (Syntax.expect t) fun q span =>
      span.Sound source tokens ∧ p ≤ span.start ∧ q = span.stop :=
    accept .refuse fun span hspan hp => .pure ⟨hspan, hp, rfl⟩
  refine hread.bind ?_
  rintro q span - ⟨hspan, hp, rfl⟩
  exact h span hspan hp

/-- The next token is taken if it is of some kind. -/
theorem next? {f : Option Lexeme → Reading α} (hend : Advances source tokens p (f none) made)
    (h : ∀ t (span : Span), span.Sound source tokens → p ≤ span.start →
      (∀ content, t = .text content → span.Covers source content) →
      Advances source tokens p (f (some ⟨t, span⟩)) made ∨
        ∃ g : Reading α, f (some ⟨t, span⟩) = (do advance; g) ∧
          Advances source tokens span.stop g made) :
    Advances source tokens p (Syntax.next? >>= f) made := by
  intro c a c' hc ha
  obtain ⟨found, mid, hfound, ha⟩ := bind_ok.mp ha
  cases hfound
  cases hrest : c.rest with
  | nil =>
    rw [hrest] at ha
    exact hend c a c' hc ha
  | cons l rest =>
    rw [hrest, List.head?_cons] at ha
    have hahead := hrest ▸ hc
    have hspan := hahead.sound l List.mem_cons_self
    have hp := hahead.after l List.mem_cons_self
    have htexts := hahead.texts l List.mem_cons_self
    obtain hl | ⟨g, hg, hl⟩ := h l.token l.span hspan hp htexts
    · exact hl c a c' hc ha
    · rw [hg] at ha
      obtain ⟨_, mid, hmid, ha⟩ := bind_ok.mp ha
      cases hmid
      have htail : Ahead source tokens l.span.stop c.rest.tail := by
        rw [hrest]
        exact hahead.tail
      obtain ⟨q, hq, hc', hmade⟩ := hl _ a c' htail ha
      have hnonempty := hspan.nonempty
      exact ⟨q, by omega, hc', hmade⟩

/-- A piece of text is taken; what is done otherwise does not depend on the next token. -/
theorem textOr {f : Option Lexeme → Reading α} {g : String → Span → Reading α}
    (hnone : Advances source tokens p (f none) made)
    (htext : ∀ content span, f (some ⟨.text content, span⟩) = (do advance; g content span))
    (hother : ∀ t span, (∀ content, t ≠ .text content) → f (some ⟨t, span⟩) = f none)
    (hg : ∀ content (span : Span), span.Sound source tokens → p ≤ span.start →
      span.Covers source content → Advances source tokens span.stop (g content span) made) :
    Advances source tokens p (Syntax.next? >>= f) made := by
  refine next? hnone fun t span hspan hp hcovers => ?_
  by_cases ht : ∃ content, t = .text content
  · obtain ⟨content, rfl⟩ := ht
    exact .inr ⟨_, htext content span, hg content span hspan hp (hcovers content rfl)⟩
  · rw [hother t span fun content h => ht ⟨content, h⟩]
    exact .inl hnone

/-- A step that succeeds at the end of the source only. -/
theorem ending {x : Reading α} (h : Advances source tokens p x made) :
    Advances source tokens p (do refuseUnlessEnd; x) made := by
  intro c a c' hc ha
  obtain ⟨_, mid, hmid, ha⟩ := bind_ok.mp ha
  rw [refuseUnlessEnd] at hmid
  split at hmid
  · cases hmid
    exact h c a c' hc ha
  · cases hmid

/-- A name at the place of its token, which was the last one. -/
theorem ident? : Advances source tokens p Syntax.ident? fun q found =>
    ∀ name ∈ found, name.2.Sound source tokens ∧ p ≤ name.2.start ∧ q = name.2.stop := by
  refine next? nothing fun t span hspan hp _ => ?_
  cases t with
  | ident name => exact .inr ⟨_, rfl, found ⟨hspan, hp, rfl⟩⟩
  | _ => exact .inl nothing

theorem ident : Advances source tokens p Syntax.ident fun q name =>
    name.2.Sound source tokens ∧ p ≤ name.2.start ∧ q = name.2.stop :=
  bindOption ident? (fun _ _ => .refuse) fun _ _ _ hname => .pure hname

end Advances

/-! ## Expressions -/

theorem literal?_advances : Advances source tokens p literal? fun q found =>
    ∀ e ∈ found, e.StandsIn source tokens ⟨p, q⟩ := by
  refine .next? .nothing fun t span hspan hp _ => ?_
  have hconstant (value : Value) :
      (Expr.constant span value).StandsIn source tokens ⟨p, span.stop⟩ :=
    Expr.standsIn_token rfl hspan hp rfl
  cases t with
  | string s => exact .inr ⟨_, rfl, .found (hconstant _)⟩
  | number x => cases x <;> exact .inr ⟨_, rfl, .found (hconstant _)⟩
  | bool b => exact .inr ⟨_, rfl, .found (hconstant _)⟩
  | null => exact .inr ⟨_, rfl, .found (hconstant _)⟩
  | _ => exact .inl .nothing

theorem key?_advances : Advances source tokens p key? fun _ _ => True := by
  refine .next? (.pure trivial) fun t span _ _ _ => ?_
  cases t with
  | ident name => exact .inr ⟨_, rfl, .pure trivial⟩
  | string name => exact .inr ⟨_, rfl, .pure trivial⟩
  | _ => exact .inl (.pure trivial)

/-- Attributes extend an expression to the end of the last one. -/
theorem attributes_advances (n : Nat) {object : Expr} {start : Nat}
    (hobject : object.StandsIn source tokens ⟨start, p⟩) :
    Advances source tokens p (attributes n object) fun q e =>
      e.StandsIn source tokens ⟨start, q⟩ := by
  induction n generalizing object p with
  | zero => exact .refuse
  | succ n ih =>
    rw [attributes]
    refine .accept (.pure hobject) fun dot hdot hp => ?_
    refine Advances.ident.bind ?_
    rintro q ⟨name, span⟩ - ⟨hspan, hle, rfl⟩
    have hnonempty := hdot.nonempty
    have hbefore : p ≤ span.start := by
      simp only at hle
      omega
    exact ih (Expr.standsIn_attribute hobject hspan hbefore name)

/-- The functions for expressions get on, with some bound on the steps, and what they find stands
    where they were. -/
structure ExpressionsAdvance (source : List Char) (tokens : List Lexeme) (n : Nat) : Prop where
  expr : ∀ p, Advances source tokens p (expr? n) fun q found =>
    ∀ e ∈ found, e.StandsIn source tokens ⟨p, q⟩
  joined : ∀ {p start : Nat} {left : Expr}, left.StandsIn source tokens ⟨start, p⟩ →
    Advances source tokens p (joined n left) fun q e => e.StandsIn source tokens ⟨start, q⟩
  operand : ∀ p, Advances source tokens p (operand? n) fun q found =>
    ∀ e ∈ found, e.StandsIn source tokens ⟨p, q⟩
  atom : ∀ p, Advances source tokens p (atom? n) fun q found =>
    ∀ e ∈ found, e.StandsIn source tokens ⟨p, q⟩
  exprs : ∀ p, Advances source tokens p (exprs n) fun q found =>
    ∀ e ∈ found, e.StandsIn source tokens ⟨p, q⟩
  entries : ∀ p, Advances source tokens p (entries n) fun q found =>
    ∀ entry ∈ found, entry.2.StandsIn source tokens ⟨p, q⟩

namespace ExpressionsAdvance

variable {n : Nat} (ih : ExpressionsAdvance source tokens n)
include ih

theorem succ_expr (p : Nat) : Advances source tokens p (expr? (n + 1)) fun q found =>
    ∀ e ∈ found, e.StandsIn source tokens ⟨p, q⟩ := by
  rw [expr?]
  refine .bindOption (ih.operand p) (fun _ _ => .nothing) fun q first _ hfirst => ?_
  exact (ih.joined hfirst).bind fun _ _ _ hwhole => .found hwhole

theorem succ_joined {p start : Nat} {left : Expr}
    (hleft : left.StandsIn source tokens ⟨start, p⟩) :
    Advances source tokens p (Syntax.joined (n + 1) left) fun q e =>
      e.StandsIn source tokens ⟨start, q⟩ := by
  rw [Syntax.joined]
  refine .accept (.pure hleft) fun tilde htilde hp => ?_
  refine .bindOption (ih.operand tilde.stop) (fun _ _ => .refuse) fun q right _ hright => ?_
  have hnonempty := htilde.nonempty
  exact ih.joined (Expr.standsIn_concat hleft hright (by omega))

theorem succ_operand (p : Nat) : Advances source tokens p (operand? (n + 1)) fun q found =>
    ∀ e ∈ found, e.StandsIn source tokens ⟨p, q⟩ := by
  rw [operand?]
  refine .bindOption (ih.atom p) (fun _ _ => .nothing) fun q base _ hbase => ?_
  exact (attributes_advances n hbase).bind fun _ _ _ hwhole => .found hwhole

theorem succ_atom (p : Nat) : Advances source tokens p (atom? (n + 1)) fun q found =>
    ∀ e ∈ found, e.StandsIn source tokens ⟨p, q⟩ := by
  rw [atom?]
  refine .bindOption literal?_advances (fun start hstart => ?_) fun _ e _ he => .found he
  refine .accept ?bracket fun first hfirst hp => ?mapping
  case mapping =>
    refine (ih.entries first.stop).bind fun q found hq hfound => .expect fun last hlast hle => ?_
    exact .found (Expr.standsIn_enclosed rfl hfirst hlast (by omega) hq hle
      (List.forall_mem_map.mpr hfound))
  refine .accept ?name fun first hfirst hp => ?array
  case array =>
    refine (ih.exprs first.stop).bind fun q found hq hfound => .expect fun last hlast hle => ?_
    exact .found (Expr.standsIn_enclosed rfl hfirst hlast (by omega) hq hle hfound)
  refine .bindOption .ident? (fun start' hstart' => ?paren) ?named
  case named =>
    rintro _ ⟨name, first⟩ - ⟨hfirst, hp, rfl⟩
    refine .accept (.found (Expr.standsIn_token rfl hfirst (Nat.le_trans hstart hp) rfl))
      fun paren hparen hle => ?_
    refine (ih.exprs paren.stop).bind fun q found hq hfound => .expect fun last hlast hlast' => ?_
    have hnonempty := hparen.nonempty
    simp only at hp hle
    exact .found (Expr.standsIn_enclosed rfl hfirst hlast (by omega) (by omega) hlast'
      fun part hpart => (hfound part hpart).widen (by omega) (Nat.le_refl _))
  case paren =>
    refine .accept .nothing fun first hfirst hp => ?_
    refine .bindOption (ih.expr first.stop) (fun _ _ => .refuse) fun q e hq he => ?_
    refine .expect fun last hlast hle => .found (he.widen ?_ ?_)
    · have hnonempty := hfirst.nonempty
      omega
    · have hnonempty := hlast.nonempty
      omega

theorem succ_exprs (p : Nat) : Advances source tokens p (Syntax.exprs (n + 1)) fun q found =>
    ∀ e ∈ found, e.StandsIn source tokens ⟨p, q⟩ := by
  rw [Syntax.exprs]
  refine .bindOption (ih.expr p) (fun _ _ => .pure (List.forall_mem_nil _)) fun q e hq he => ?_
  refine .accept (.pure (List.forall_mem_singleton.mpr he)) fun comma hcomma hp => ?_
  refine (ih.exprs comma.stop).bind fun r rest hr hrest => .pure ?_
  have hnonempty := hcomma.nonempty
  refine List.forall_mem_cons.mpr ⟨he.widen (Nat.le_refl _) (by omega), fun e' he' => ?_⟩
  exact (hrest e' he').widen (by omega) (Nat.le_refl _)

theorem succ_entries (p : Nat) : Advances source tokens p (Syntax.entries (n + 1)) fun q found =>
    ∀ entry ∈ found, entry.2.StandsIn source tokens ⟨p, q⟩ := by
  rw [Syntax.entries]
  refine key?_advances.bind fun start key hstart _ => ?_
  cases key with
  | none => exact .pure (List.forall_mem_nil _)
  | some key =>
    refine .expect fun colon hcolon hp => ?_
    have hcolon' := hcolon.nonempty
    refine .bindOption (ih.expr colon.stop) (fun _ _ => .refuse) fun q e hq he => ?_
    have he' := he.widen (show p ≤ colon.stop by omega) (Nat.le_refl q)
    refine .accept (.pure (List.forall_mem_singleton.mpr he')) fun comma hcomma hle => ?_
    refine (ih.entries comma.stop).bind fun r rest hr hrest => .pure ?_
    have hnonempty := hcomma.nonempty
    refine List.forall_mem_cons.mpr ⟨he'.widen (Nat.le_refl _) (by omega), fun entry hentry => ?_⟩
    exact (hrest entry hentry).widen (by omega) (Nat.le_refl _)

end ExpressionsAdvance

/-- By induction on the bound: every function calls the others with a smaller one. -/
theorem expressionsAdvance (n : Nat) : ExpressionsAdvance source tokens n := by
  induction n with
  | zero =>
    exact ⟨fun _ => .refuse, fun _ => .refuse, fun _ => .refuse, fun _ => .refuse,
      fun _ => .refuse, fun _ => .refuse⟩
  | succ n ih =>
    exact ⟨ih.succ_expr, ih.succ_joined, ih.succ_operand, ih.succ_atom, ih.succ_exprs,
      ih.succ_entries⟩

theorem expr_advances (n : Nat) (p : Nat) : Advances source tokens p (expr n) fun q e =>
    e.StandsIn source tokens ⟨p, q⟩ :=
  .bindOption ((expressionsAdvance n).expr p) (fun _ _ => .refuse) fun _ _ _ he => .pure he

theorem clauses_advances (n : Nat) (p : Nat) : Advances source tokens p (clauses n) fun q found =>
    ∀ e ∈ found.bindings, e.StandsIn source tokens ⟨p, q⟩ := by
  have hbindings (start : Nat) : Advances source tokens start (bindings? n) fun q found =>
      ∀ e ∈ found, e.StandsIn source tokens ⟨start, q⟩ := by
    refine .accept .nothing fun word hword hp => ?_
    refine (expr_advances n word.stop).bind fun q e hq he => .found (he.widen ?_ (Nat.le_refl _))
    have hnonempty := hword.nonempty
    omega
  have hafter (start : Nat) (hstart : p ≤ start) (ignoreMissing : Bool) :
      Advances source tokens start (clausesAfter n ignoreMissing) fun q found =>
        ∀ e ∈ found.bindings, e.StandsIn source tokens ⟨p, q⟩ := by
    refine (hbindings start).bind fun q bindings hq hfound => ?_
    refine .accept (.pure fun e he => (hfound e he).widen hstart (Nat.le_refl _))
      fun only honly hle => .pure fun e he => (hfound e he).widen hstart ?_
    have hnonempty := honly.nonempty
    omega
  rw [clauses_eq]
  refine .accept (hafter p (Nat.le_refl p) false) fun ignore hignore hp => ?_
  refine .expect fun missing hmissing hle => hafter missing.stop ?_ true
  have hignore' := hignore.nonempty
  have hmissing' := hmissing.nonempty
  omega

/-! ## Items -/

end Syntax

namespace Item

/-- The expressions of a tag. -/
def exprs : Item → List Expr
  | .print _ expr => [expr]
  | .«include» _ target clauses => target :: clauses.bindings.toList
  | .embed _ target clauses _ => target :: clauses.bindings.toList
  | .«extends» _ parent => [parent]
  | _ => []

/-- The items between a tag and the one that closes it. -/
def body : Item → List Item
  | .block _ _ body => body
  | .embed _ _ _ body => body
  | _ => []

/-- What a piece of text says. -/
def text? : Item → Option String
  | .text _ content => some content
  | _ => none

/-- The spans of an item, and of all that is in it, are sound and hold those of the parts. The items
    of a body stand one after the other, and a text is that of its span. -/
inductive Faithful (source : List Char) (tokens : List Lexeme) : Item → Prop
  | mk {item : Item} (sound : item.span.Sound source tokens)
      (exprs : ∀ e ∈ item.exprs, e.StandsIn source tokens item.span)
      (body : ∀ inner ∈ item.body, Faithful source tokens inner)
      (within : ∀ inner ∈ item.body, inner.span.Within item.span)
      (ordered : (item.body.map span).Pairwise Span.Before)
      (text : ∀ content ∈ item.text?, item.span.Covers source content) :
      Faithful source tokens item

/-- Faithful items, one after the other, in an extent of the source. -/
structure StandIn (source : List Char) (tokens : List Lexeme) (extent : Span)
    (items : List Item) : Prop where
  faithful : ∀ item ∈ items, item.Faithful source tokens
  within : ∀ item ∈ items, item.span.Within extent
  ordered : (items.map span).Pairwise Span.Before

theorem standIn_nil {extent : Span} : StandIn source tokens extent [] :=
  ⟨List.forall_mem_nil _, List.forall_mem_nil _, .nil⟩

theorem StandIn.widen {items : List Item} {start start' stop stop' : Nat}
    (h : StandIn source tokens ⟨start, stop⟩ items) (hstart : start' ≤ start)
    (hstop : stop ≤ stop') : StandIn source tokens ⟨start', stop'⟩ items :=
  ⟨h.faithful, fun item hitem => (h.within item hitem).trans ⟨hstart, hstop⟩, h.ordered⟩

/-- An item before others. -/
theorem StandIn.cons {item : Item} {rest : List Item} {p q r : Nat}
    (hitem : item.Faithful source tokens) (hstart : p ≤ item.span.start)
    (hstop : item.span.stop ≤ q) (hq : q ≤ r) (hrest : StandIn source tokens ⟨q, r⟩ rest) :
    StandIn source tokens ⟨p, r⟩ (item :: rest) where
  faithful := List.forall_mem_cons.mpr ⟨hitem, hrest.faithful⟩
  within := by
    obtain ⟨hsound⟩ := hitem
    have hnonempty := hsound.nonempty
    have hpq : p ≤ q := by omega
    refine List.forall_mem_cons.mpr ⟨⟨hstart, Nat.le_trans hstop hq⟩, fun other hother => ?_⟩
    exact (hrest.within other hother).trans ⟨hpq, Nat.le_refl r⟩
  ordered := by
    refine List.pairwise_cons.mpr ⟨List.forall_mem_map.mpr fun other hother => ?_, hrest.ordered⟩
    exact Nat.le_trans hstop (hrest.within other hother).start

/-- A piece of text. -/
theorem faithful_text {span : Span} {content : String} (hspan : span.Sound source tokens)
    (hcovers : span.Covers source content) :
    (Item.text span content).Faithful source tokens := by
  refine .mk hspan (List.forall_mem_nil _) (List.forall_mem_nil _) (List.forall_mem_nil _) .nil ?_
  rintro _ ⟨⟩
  exact hcovers

/-- An item that goes from one token to another, with its expressions and its body between them. -/
theorem faithful_tag {item : Item} {first last : Span} {q : Nat}
    (hspan : item.span = first.upTo last) (hfirst : first.Sound source tokens)
    (hlast : last.Sound source tokens) (hq : first.stop ≤ q) (hle : q ≤ last.start)
    (hexprs : ∀ e ∈ item.exprs, e.StandsIn source tokens ⟨first.stop, q⟩)
    (hbody : StandIn source tokens ⟨first.stop, q⟩ item.body)
    (htext : item.text? = none) : item.Faithful source tokens := by
  have hinner : Span.Within ⟨first.stop, q⟩ item.span := hspan ▸ hfirst.between hlast hle
  have hsound : item.span.Sound source tokens := hspan ▸ hfirst.upTo hlast (Nat.le_trans hq hle)
  refine .mk hsound (fun e he => (hexprs e he).mono hinner) hbody.faithful
    (fun inner hmem => (hbody.within inner hmem).trans hinner) hbody.ordered ?_
  rw [htext]
  exact fun content h => by cases h

end Item

namespace Syntax

/-- What an include or an embed names, with its clauses. -/
theorem inclusion_advances {α : Type} {n p start : Nat} {made : Nat → α → Prop}
    {f : Expr → Clauses → Reading α} (hstart : start ≤ p)
    (h : ∀ q target found, p ≤ q →
      (∀ e ∈ target :: found.bindings.toList, e.StandsIn source tokens ⟨start, q⟩) →
      Advances source tokens q (f target found) made) :
    Advances source tokens p (do
      let target ← expr n
      let found ← clauses n
      f target found) made := by
  refine (expr_advances n p).bind fun q target hq htarget => ?_
  refine (clauses_advances n q).bind fun r found hr hfound => ?_
  refine h r target found (Nat.le_trans hq hr) (List.forall_mem_cons.mpr ⟨?_, fun e he => ?_⟩)
  · exact htarget.widen hstart hr
  · exact (hfound e (Option.mem_toList.mp he)).widen (Nat.le_trans hstart hq) (Nat.le_refl r)

section Tags

variable {closing : Option Keyword} {n p : Nat} {first keyword : Span}
  (ih : ∀ closing p, Advances source tokens p (items closing n) fun q found =>
    Item.StandIn source tokens ⟨p, q⟩ found)

include ih

/-- An item before items that are read. -/
theorem itemsAfter_advances {item : Item} {q : Nat} (hitem : item.Faithful source tokens)
    (hstart : p ≤ item.span.start) (hstop : item.span.stop ≤ q) :
    Advances source tokens q (itemsAfter closing n item) fun r all =>
      Item.StandIn source tokens ⟨p, r⟩ all :=
  (ih closing q).bind fun _ _ hr hrest => .pure (hrest.cons hitem hstart hstop hr)

variable (hfirst : first.Sound source tokens) (hp : p ≤ first.start)

include hfirst hp

theorem printTag_advances : Advances source tokens first.stop (printTag closing n first)
    fun r all => Item.StandIn source tokens ⟨p, r⟩ all := by
  refine (expr_advances n first.stop).bind fun q e hq he => .expect fun last hlast hle => ?_
  have hprint : (Item.print (first.upTo last) e).Faithful source tokens :=
    Item.faithful_tag rfl hfirst hlast hq hle (List.forall_mem_singleton.mpr he)
      Item.standIn_nil rfl
  exact itemsAfter_advances ih hprint hp (Nat.le_refl _)

variable (hkeyword : keyword.Sound source tokens) (hle : first.stop ≤ keyword.start)

include hkeyword hle

theorem blockTag_advances :
    Advances source tokens keyword.stop (blockTag closing n first keyword)
      fun r all => Item.StandIn source tokens ⟨p, r⟩ all := by
  have hkeyword' := hkeyword.nonempty
  rw [blockTag_eq]
  refine Advances.ident.bind ?_
  rintro _ ⟨name, word⟩ - ⟨hword, hname, rfl⟩
  have hword' : word.start < word.stop := hword.nonempty
  refine .expect fun opened hopened hopen => ?_
  have hopened' := hopened.nonempty
  refine (ih (some .endBlock) opened.stop).bind fun q found hq hbody => ?_
  refine Advances.ident?.bind fun r ending hr _ => .expect fun last hlast hclose => ?_
  split
  case isFalse => exact .throw
  case isTrue =>
    have hinner : first.stop ≤ opened.stop := by
      simp only at hname hopen
      omega
    have hblock : (Item.block (first.upTo last) name found).Faithful source tokens :=
      Item.faithful_tag rfl hfirst hlast (by omega) hclose (List.forall_mem_nil _)
        (hbody.widen hinner hr) rfl
    exact itemsAfter_advances ih hblock hp (Nat.le_refl _)

theorem embedTag_advances : Advances source tokens keyword.stop (embedTag closing n first)
    fun r all => Item.StandIn source tokens ⟨p, r⟩ all := by
  have hkeyword' := hkeyword.nonempty
  refine inclusion_advances (show first.stop ≤ keyword.stop by omega)
    fun q target found hq hexprs => .expect fun opened hopened hopen => ?_
  have hopened' := hopened.nonempty
  refine (ih (some .endEmbed) opened.stop).bind fun r enclosed hr hbody => ?_
  refine .expect fun last hlast hclose => ?_
  have hembed : (Item.embed (first.upTo last) target found enclosed).Faithful source tokens :=
    Item.faithful_tag rfl hfirst hlast (by omega) hclose
      (fun e he => (hexprs e he).widen (Nat.le_refl _) (by omega))
      (hbody.widen (by omega) (Nat.le_refl _)) rfl
  exact itemsAfter_advances ih hembed hp (Nat.le_refl _)

theorem includeTag_advances : Advances source tokens keyword.stop (includeTag closing n first)
    fun r all => Item.StandIn source tokens ⟨p, r⟩ all := by
  have hkeyword' := hkeyword.nonempty
  refine inclusion_advances (show first.stop ≤ keyword.stop by omega)
    fun q target found hq hexprs => .expect fun last hlast hclose => ?_
  have hinclude : (Item.«include» (first.upTo last) target found).Faithful source tokens :=
    Item.faithful_tag rfl hfirst hlast (by omega) hclose hexprs Item.standIn_nil rfl
  exact itemsAfter_advances ih hinclude hp (Nat.le_refl _)

theorem extendsTag_advances : Advances source tokens keyword.stop (extendsTag closing n first)
    fun r all => Item.StandIn source tokens ⟨p, r⟩ all := by
  have hkeyword' := hkeyword.nonempty
  refine (expr_advances n keyword.stop).bind fun q parent hq hparent => ?_
  refine .expect fun last hlast hclose => ?_
  have hextends : (Item.«extends» (first.upTo last) parent).Faithful source tokens :=
    Item.faithful_tag rfl hfirst hlast (by omega) hclose
      (List.forall_mem_singleton.mpr (hparent.widen (by omega) (Nat.le_refl _)))
      Item.standIn_nil rfl
  exact itemsAfter_advances ih hextends hp (Nat.le_refl _)

end Tags

/-- By induction on the bound: what an item encloses, and the items after it, are read with a
    smaller one. -/
theorem items_advances (closing : Option Keyword) (n p : Nat) :
    Advances source tokens p (items closing n) fun q found =>
      Item.StandIn source tokens ⟨p, q⟩ found := by
  induction n generalizing closing p with
  | zero => exact .refuse
  | succ n ih =>
    unfold items
    refine .textOr ?_ (fun _ _ => rfl) ?other fun content span hspan hp hcovers =>
      itemsAfter_advances ih (Item.faithful_text hspan hcovers) hp (Nat.le_refl _)
    case other =>
      intro t span ht
      cases t with
      | text content => exact absurd rfl (ht content)
      | _ => rfl
    refine .accept ?_ fun first hfirst hp => printTag_advances ih hfirst hp
    refine .accept ?closed fun first hfirst hp => ?_
    case closed =>
      cases closing with
      | none => exact .ending (.pure Item.standIn_nil)
      | some k => exact .refuse
    refine .accept ?_ fun keyword hkeyword hle => blockTag_advances ih hfirst hp hkeyword hle
    refine .accept ?_ fun keyword hkeyword hle => embedTag_advances ih hfirst hp hkeyword hle
    refine .accept ?_ fun keyword hkeyword hle => includeTag_advances ih hfirst hp hkeyword hle
    refine .accept ?_ fun keyword hkeyword hle => extendsTag_advances ih hfirst hp hkeyword hle
    cases closing with
    | none => exact .refuse
    | some k => exact .expect fun _ _ _ => .pure Item.standIn_nil

/-- The tokens of a source are ahead of its start. -/
theorem ahead_of_lexemes {ls : List Lexeme} (h : lexemes source = .ok ls) :
    Ahead source ls 0 ls := by
  have hlaid : Laid [] source ls := laid_of_lexemesFrom h
  have hlossless := hlaid.lossless
  refine ⟨fun l hl => ?_, fun l hl content hcontent => ?_, fun _ _ => Nat.zero_le _, ?_⟩
  · obtain ⟨hnonempty, hinside⟩ := hlossless.bounds l hl
    exact ⟨hnonempty, hinside, ⟨l, hl, rfl⟩, ⟨l, hl, rfl⟩⟩
  · exact (hlossless.texts l hl content hcontent).1
  · exact hlossless.ordered

/-- The items of a source stand in it, one after the other. -/
theorem parseItems_faithful {items : List Item} (h : parseItems source = .ok items) :
    ∃ ls stop, lexemes source = .ok ls ∧ Item.StandIn source ls ⟨0, stop⟩ items := by
  obtain ⟨ls, c, hls, hrun⟩ := parseItems_run h
  obtain ⟨stop, -, -, hitems⟩ :=
    items_advances none (bound ls) 0 _ items c (ahead_of_lexemes hls) hrun
  exact ⟨ls, stop, hls, hitems⟩

end Syntax

end Stencil
