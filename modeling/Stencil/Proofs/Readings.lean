import Stencil.Syntax.Grammar

/-!
# What steps read

Two judgements about a step that reads tokens. `Consumes` is about the runs that succeed: what was
taken from the front of the tokens makes up the result. `Reads` says that a step succeeds from all
cursors at given tokens, with such a result and with given tokens left. Both have one rule for each
step that the grammar is built from, so that a proof follows the text of a grammar function.

The spans of the tokens and what a cursor has tried are in neither of them.

Results:
* `Consumes.bind`, `Consumes.accept`, `Consumes.expect`, ...: the rules of successful runs.
* `Reads.bind`, `Reads.accepted`, `Reads.declined`, ...: the rules of success.
* `clauses_eq`, `blockTag_eq`: the clauses of a tag, and what follows the keyword of a block.
-/

namespace Stencil.Syntax

/-- The tokens still to be read, without their places. -/
def Cursor.tokens (c : Cursor) : List Token := c.rest.map (·.token)

theorem Cursor.tokens_note (c : Cursor) (e : Expectation) : (c.note e).tokens = c.tokens := by
  rw [Cursor.note]
  split <;> rfl

/-- The first token of a cursor with its place. -/
theorem Cursor.rest_of_tokens {c : Cursor} {t : Token} {ts : List Token}
    (h : c.tokens = t :: ts) : ∃ span rest, c.rest = ⟨t, span⟩ :: rest ∧
      rest.map (·.token) = ts := by
  obtain ⟨l, rest, hc, ht, hts⟩ := List.map_eq_cons_iff.mp h
  subst ht
  exact ⟨l.span, rest, hc, hts⟩

variable {α β : Type}

/-- A composed step succeeds if both parts do. -/
theorem bind_ok {x : Reading α} {f : α → Reading β} {c c' : Cursor} {b : β} :
    (x >>= f) c = .ok (b, c') ↔ ∃ a mid, x c = .ok (a, mid) ∧ f a mid = .ok (b, c') := by
  show (x c >>= fun r => f r.1 r.2) = _ ↔ _
  cases hx : x c with
  | error e =>
    constructor
    · intro h
      cases h
    · rintro ⟨a, mid, h, -⟩
      cases h
  | ok r =>
    constructor
    · intro h
      exact ⟨r.1, r.2, rfl, h⟩
    · rintro ⟨a, mid, h, hf⟩
      cases h
      exact hf

/-! ## Successful runs -/

/-- When the step succeeds, the tokens it took make up its result. -/
def Consumes (x : Reading α) (made : List Token → α → Prop) : Prop :=
  ∀ c a c', x c = .ok (a, c') → ∃ ts, c.tokens = ts ++ c'.tokens ∧ made ts a

/-- No tokens for no result, and tokens that make up the result otherwise. -/
def Maybe (made : List Token → α → Prop) (ts : List Token) : Option α → Prop
  | none => ts = []
  | some a => made ts a

namespace Consumes

variable {made : List Token → α → Prop}

theorem pure {a : α} (h : made [] a) : Consumes (pure a) made := by
  intro c b c' hb
  cases hb
  exact ⟨[], rfl, h⟩

theorem refuse : Consumes refuse made := by
  intro c b c' hb
  cases hb

theorem throw {e : Fault} : Consumes (throw e) made := by
  intro c b c' hb
  cases hb

theorem bind {x : Reading β} {f : β → Reading α} {read : List Token → β → Prop}
    (hx : Consumes x read)
    (hf : ∀ ts b, read ts b → Consumes (f b) fun us a => made (ts ++ us) a) :
    Consumes (x >>= f) made := by
  intro c a c' h
  obtain ⟨b, mid, hb, ha⟩ := bind_ok.mp h
  obtain ⟨ts, hts, hread⟩ := hx c b mid hb
  obtain ⟨us, hus, hmade⟩ := hf ts b hread mid a c' ha
  refine ⟨ts ++ us, ?_, hmade⟩
  rw [hts, hus, List.append_assoc]

/-- A step that may have read nothing. -/
theorem bindMaybe {x : Reading (Option β)} {f : Option β → Reading α}
    {read : List Token → β → Prop} (hx : Consumes x (Maybe read)) (hnone : Consumes (f none) made)
    (hsome : ∀ ts b, read ts b → Consumes (f (some b)) fun us a => made (ts ++ us) a) :
    Consumes (x >>= f) made := by
  refine hx.bind fun ts b hb => ?_
  cases b with
  | none =>
    cases hb
    exact hnone
  | some b => exact hsome ts b hb

theorem accept? (t : Token) : Consumes (accept? t) (Maybe fun ts _ => ts = [t]) := by
  intro c found c' h
  cases hc : c.rest with
  | nil =>
    simp only [Syntax.accept?, hc, Except.ok.injEq, Prod.mk.injEq] at h
    obtain ⟨rfl, rfl⟩ := h
    exact ⟨[], (c.tokens_note _).symm, rfl⟩
  | cons l rest =>
    simp only [Syntax.accept?, hc] at h
    by_cases ht : l.token = t
    · rw [if_pos ht] at h
      cases h
      refine ⟨[t], ?_, rfl⟩
      rw [Cursor.tokens, hc, List.map_cons, ht]
      rfl
    · rw [if_neg ht] at h
      cases h
      exact ⟨[], (c.tokens_note _).symm, rfl⟩

/-- A token that may be there. -/
theorem accept {t : Token} {f : Option Span → Reading α} (hnone : Consumes (f none) made)
    (hsome : ∀ span, Consumes (f (some span)) fun us a => made (t :: us) a) :
    Consumes (Syntax.accept? t >>= f) made := by
  refine (accept? t).bindMaybe hnone fun ts span hts => ?_
  subst hts
  exact hsome span

/-- A token that has to be there. -/
theorem expect {t : Token} {f : Span → Reading α}
    (h : ∀ span, Consumes (f span) fun us a => made (t :: us) a) :
    Consumes (expect t >>= f) made := by
  have hread : Consumes (Syntax.expect t) fun ts _ => ts = [t] :=
    accept .refuse fun _ => .pure rfl
  refine hread.bind fun ts span hts => ?_
  subst hts
  exact h span

/-- The next token is taken if it is of some kind. -/
theorem next? {f : Option Lexeme → Reading α} (hend : Consumes (f none) made)
    (h : ∀ t span, Consumes (f (some ⟨t, span⟩)) made ∨
      ∃ g : Reading α, f (some ⟨t, span⟩) = (do advance; g) ∧
        Consumes g fun us a => made (t :: us) a) :
    Consumes (Syntax.next? >>= f) made := by
  intro c a c' ha
  obtain ⟨found, mid, hfound, ha⟩ := bind_ok.mp ha
  cases hfound
  cases hc : c.rest with
  | nil =>
    rw [hc] at ha
    exact hend c a c' ha
  | cons l rest =>
    rw [hc] at ha
    obtain hl | ⟨g, hg, hl⟩ := h l.token l.span
    · exact hl c a c' ha
    · rw [List.head?_cons, hg] at ha
      obtain ⟨_, mid, hmid, ha⟩ := bind_ok.mp ha
      cases hmid
      obtain ⟨ts, hts, hmade⟩ := hl _ a c' ha
      refine ⟨l.token :: ts, ?_, hmade⟩
      rw [Cursor.tokens, hc, List.map_cons, List.cons_append, ← hts]
      simp only [Cursor.tokens, hc, List.tail_cons]

/-- A piece of text is taken; what is done otherwise does not depend on the next token. -/
theorem textOr {f : Option Lexeme → Reading α} {g : String → Span → Reading α}
    (hnone : Consumes (f none) made)
    (htext : ∀ content span, f (some ⟨.text content, span⟩) = (do advance; g content span))
    (hother : ∀ t span, (∀ content, t ≠ .text content) → f (some ⟨t, span⟩) = f none)
    (hg : ∀ content span, Consumes (g content span) fun us a => made (.text content :: us) a) :
    Consumes (Syntax.next? >>= f) made := by
  refine next? hnone fun t span => ?_
  by_cases ht : ∃ content, t = .text content
  · obtain ⟨content, rfl⟩ := ht
    exact .inr ⟨_, htext content span, hg content span⟩
  · rw [hother t span fun content h => ht ⟨content, h⟩]
    exact .inl hnone

/-- A step that succeeds at the end of the source only. -/
theorem ending {x : Reading α} (h : Consumes x made) :
    Consumes (do refuseUnlessEnd; x) made := by
  intro c a c' ha
  obtain ⟨_, mid, hmid, ha⟩ := bind_ok.mp ha
  rw [refuseUnlessEnd] at hmid
  split at hmid
  · cases hmid
    exact h c a c' ha
  · cases hmid

theorem ident? : Consumes ident? (Maybe fun ts found => ts = [.ident found.1]) := by
  refine next? (.pure rfl) fun t span => ?_
  cases t with
  | ident name => exact .inr ⟨_, rfl, .pure rfl⟩
  | _ => exact .inl (.pure rfl)

/-- An identifier that has to be there. -/
theorem ident {f : String × Span → Reading α}
    (h : ∀ name span, Consumes (f (name, span)) fun us a => made (.ident name :: us) a) :
    Consumes (ident >>= f) made := by
  have hread : Consumes Syntax.ident fun ts found => ts = [.ident found.1] :=
    ident?.bindMaybe .refuse fun ts found hts => .pure (by rw [List.append_nil, hts])
  refine hread.bind fun ts found hts => ?_
  subst hts
  exact h found.1 found.2

end Consumes

/-! ## Runs to the end -/

/-- When the step succeeds, no tokens are left. -/
def Ends (x : Reading α) : Prop := ∀ c a c', x c = .ok (a, c') → c'.tokens = []

namespace Ends

theorem refuse : Ends (refuse : Reading α) := by
  intro c a c' h
  cases h

theorem bind {x : Reading β} {f : β → Reading α} (h : ∀ b, Ends (f b)) : Ends (x >>= f) := by
  intro c a c' ha
  obtain ⟨b, mid, -, ha⟩ := bind_ok.mp ha
  exact h b mid a c' ha

theorem map {x : Reading β} (h : Ends x) (g : β → α) : Ends (do let b ← x; pure (g b)) := by
  intro c a c' ha
  obtain ⟨b, mid, hb, ha⟩ := bind_ok.mp ha
  cases ha
  exact h c b c' hb

/-- A token that may be there. -/
theorem accept {t : Token} {f : Option Span → Reading α} (hnone : Ends (f none))
    (hsome : ∀ span, Ends (f (some span))) : Ends (accept? t >>= f) := by
  refine bind fun found => ?_
  cases found with
  | none => exact hnone
  | some span => exact hsome span

theorem throw {e : Fault} : Ends (throw e : Reading α) := by
  intro c a c' ha
  cases ha

theorem ending (a : α) : Ends (do refuseUnlessEnd; pure a) := by
  intro c b c' hb
  obtain ⟨_, mid, hmid, hb⟩ := bind_ok.mp hb
  cases hb
  rw [refuseUnlessEnd] at hmid
  split at hmid
  case isTrue hend =>
    cases hmid
    rw [Cursor.tokens, List.isEmpty_iff.mp hend, List.map_nil]
  case isFalse => cases hmid

end Ends

/-! ## Success -/

/-- From all cursors at these tokens the step succeeds, with such a result and with those tokens
    left. -/
def Reads (before : List Token) (x : Reading α) (result : α → Prop) (after : List Token) : Prop :=
  ∀ c : Cursor, c.tokens = before → ∃ a c', x c = .ok (a, c') ∧ result a ∧ c'.tokens = after

namespace Reads

variable {before mid after : List Token} {result : α → Prop}

theorem pure {a : α} (h : result a) : Reads after (pure a) result after :=
  fun c hc => ⟨a, c, rfl, h, hc⟩

theorem bind {x : Reading β} {f : β → Reading α} {found : β → Prop} (hx : Reads before x found mid)
    (hf : ∀ b, found b → Reads mid (f b) result after) : Reads before (x >>= f) result after := by
  intro c hc
  obtain ⟨b, c₁, hb, hfound, hmid⟩ := hx c hc
  obtain ⟨a, c₂, ha, hresult, hafter⟩ := hf b hfound c₁ hmid
  exact ⟨a, c₂, bind_ok.mpr ⟨b, c₁, hb, ha⟩, hresult, hafter⟩

theorem mono {x : Reading α} {result' : α → Prop} (hx : Reads before x result after)
    (h : ∀ a, result a → result' a) : Reads before x result' after := by
  intro c hc
  obtain ⟨a, c', ha, hresult, hafter⟩ := hx c hc
  exact ⟨a, c', ha, h a hresult, hafter⟩

/-- A token that is there. -/
theorem accepted {t : Token} {f : Option Span → Reading α}
    (h : ∀ span, Reads mid (f (some span)) result after) :
    Reads (t :: mid) (accept? t >>= f) result after := by
  have ht : Reads (t :: mid) (accept? t) (fun o => ∃ span, o = some span) mid := by
    intro c hc
    obtain ⟨span, rest, hrest, hmid⟩ := Cursor.rest_of_tokens hc
    refine ⟨some span, { c with rest := rest, tried := [] }, ?_, ⟨span, rfl⟩, hmid⟩
    simp only [accept?, hrest, if_true]
  refine ht.bind ?_
  rintro _ ⟨span, rfl⟩
  exact h span

/-- A token that is not there. -/
theorem declined {t : Token} {f : Option Span → Reading α} (ht : before.head? ≠ some t)
    (h : Reads before (f none) result after) : Reads before (accept? t >>= f) result after := by
  have hnone : Reads before (accept? t) (fun o => o = none) before := by
    intro c hc
    refine ⟨none, c.note (.token t), ?_, rfl, by rw [Cursor.tokens_note, hc]⟩
    cases hrest : c.rest with
    | nil => simp only [accept?, hrest]
    | cons l rest =>
      have hl : l.token ≠ t := by
        intro hl
        rw [← hc, Cursor.tokens, hrest, List.map_cons, List.head?_cons, hl] at ht
        exact ht rfl
      simp only [accept?, hrest, if_neg hl]
  refine hnone.bind ?_
  rintro _ rfl
  exact h

theorem expect {t : Token} {f : Span → Reading α} (h : ∀ span, Reads mid (f span) result after) :
    Reads (t :: mid) (expect t >>= f) result after := by
  have ht : Reads (t :: mid) (Syntax.expect t) (fun _ => True) mid :=
    accepted fun _ => pure trivial
  exact ht.bind fun span _ => h span

/-- A step that looks at the next token. -/
theorem peek {t : Token} {f : Option Lexeme → Reading α}
    (h : ∀ span, Reads (t :: mid) (f (some ⟨t, span⟩)) result after) :
    Reads (t :: mid) (next? >>= f) result after := by
  intro c hc
  obtain ⟨span, rest, hrest, -⟩ := Cursor.rest_of_tokens hc
  obtain ⟨a, c', ha, hresult⟩ := h span c hc
  refine ⟨a, c', bind_ok.mpr ⟨_, c, rfl, ?_⟩, hresult⟩
  rw [hrest]
  exact ha

/-- A step that looks for a next token where there is none. -/
theorem peekEnd {f : Option Lexeme → Reading α} (h : Reads [] (f none) result after) :
    Reads [] (next? >>= f) result after := by
  intro c hc
  obtain ⟨a, c', ha, hresult⟩ := h c hc
  refine ⟨a, c', bind_ok.mpr ⟨_, c, rfl, ?_⟩, hresult⟩
  rw [List.map_eq_nil_iff.mp hc]
  exact ha

theorem advance {t : Token} {x : Reading α} (h : Reads mid x result after) :
    Reads (t :: mid) (do advance; x) result after := by
  have ht : Reads (t :: mid) Syntax.advance (fun _ => True) mid := by
    intro c hc
    obtain ⟨span, rest, hrest, hmid⟩ := Cursor.rest_of_tokens hc
    refine ⟨(), _, rfl, trivial, ?_⟩
    rw [Cursor.tokens, hrest, List.tail_cons, hmid]
  exact ht.bind fun _ _ => h

/-- The end of the source where it is. -/
theorem ending {x : Reading α} (h : Reads [] x result after) :
    Reads [] (do refuseUnlessEnd; x) result after := by
  have hend : Reads [] refuseUnlessEnd (fun _ => True) [] := by
    intro c hc
    refine ⟨(), c, ?_, trivial, hc⟩
    rw [refuseUnlessEnd, List.map_eq_nil_iff.mp hc]
    rfl
  exact hend.bind fun _ _ => h

theorem ident? (name : String) :
    Reads (.ident name :: mid) ident? (fun o => ∃ span, o = some (name, span)) mid :=
  peek fun span => advance (pure ⟨span, rfl⟩)

theorem noIdent {t : Token} (ht : ∀ name, t ≠ .ident name) :
    Reads (t :: mid) Syntax.ident? (fun o => o = none) (t :: mid) := by
  refine peek fun span => ?_
  cases t with
  | ident name => exact absurd rfl (ht name)
  | _ => exact pure rfl

theorem ident {name : String} {f : String × Span → Reading α}
    (h : ∀ span, Reads mid (f (name, span)) result after) :
    Reads (.ident name :: mid) (ident >>= f) result after := by
  have hname : Reads (.ident name :: mid) Syntax.ident (fun found => found.1 = name) mid := by
    refine (ident? name).bind ?_
    rintro _ ⟨span, rfl⟩
    exact pure rfl
  refine hname.bind ?_
  rintro ⟨_, span⟩ rfl
  exact h span

end Reads

/-! ## The clauses of a tag one after the other -/

/-- The clause of the variables. -/
def bindings? (n : Nat) : Reading (Option Expr) := do
  match ← accept? (.keyword .«with») with
  | some _ =>
    let e ← expr n
    pure (some e)
  | none => pure none

/-- The clauses after `ignore missing`. -/
def clausesAfter (n : Nat) (ignoreMissing : Bool) : Reading Clauses := do
  let bindings ← bindings? n
  let only ← accept? (.keyword .only)
  pure ⟨ignoreMissing, bindings, only.isSome⟩

theorem clauses_eq (n : Nat) :
    clauses n = (do
      match ← accept? (.keyword .ignore) with
      | some _ =>
        let _ ← expect (.keyword .missing)
        clausesAfter n true
      | none => clausesAfter n false) := by
  rw [clauses]
  congr 1
  funext ignore
  cases ignore <;> rfl

/-! ## Items tag by tag -/

/-- An item that was read, and the items after it. -/
def itemsAfter (closing : Option Keyword) (n : Nat) (item : Item) : Reading (List Item) := do
  let rest ← items closing n
  pure (item :: rest)

/-- What follows the start of a print tag. -/
def printTag (closing : Option Keyword) (n : Nat) (first : Span) : Reading (List Item) := do
  let e ← expr n
  let last ← expect .printClose
  itemsAfter closing n (.print (first.upTo last) e)

/-- What follows the keyword of a block. -/
def blockTag (closing : Option Keyword) (n : Nat) (first keyword : Span) :
    Reading (List Item) := do
  let (name, _) ← ident
  let _ ← expect .tagClose
  let body ← items (some .endBlock) n
  let ending ← ident?
  let last ← expect .tagClose
  match ending with
  | some (other, _) => if other ≠ name then throw (misnamedBlock keyword closing)
  | none => pure ()
  itemsAfter closing n (.block (first.upTo last) name body)

/-- What follows the keyword of an embed. -/
def embedTag (closing : Option Keyword) (n : Nat) (first : Span) : Reading (List Item) := do
  let target ← expr n
  let found ← clauses n
  let _ ← expect .tagClose
  let body ← items (some .endEmbed) n
  let last ← expect .tagClose
  itemsAfter closing n (.embed (first.upTo last) target found body)

/-- What follows the keyword of an include. -/
def includeTag (closing : Option Keyword) (n : Nat) (first : Span) : Reading (List Item) := do
  let target ← expr n
  let found ← clauses n
  let last ← expect .tagClose
  itemsAfter closing n (.«include» (first.upTo last) target found)

/-- What follows the keyword of an `extends` tag. -/
def extendsTag (closing : Option Keyword) (n : Nat) (first : Span) : Reading (List Item) := do
  let parent ← expr n
  let last ← expect .tagClose
  itemsAfter closing n (.«extends» (first.upTo last) parent)

/-- A block may be closed without a name, or under its own one. -/
theorem blockTag_eq (closing : Option Keyword) (n : Nat) (first keyword : Span) :
    blockTag closing n first keyword = (do
      let (name, _) ← ident
      let _ ← expect .tagClose
      let body ← items (some .endBlock) n
      let ending ← ident?
      let last ← expect .tagClose
      if ∀ found ∈ ending, found.1 = name then
        itemsAfter closing n (.block (first.upTo last) name body)
      else throw (misnamedBlock keyword closing)) := by
  refine bind_congr fun name => bind_congr fun opened => bind_congr fun body => ?_
  refine bind_congr fun ending => bind_congr fun last => ?_
  cases ending with
  | none => simp only [Option.not_mem_none, false_implies, implies_true, if_true]
  | some found =>
    simp only [Option.mem_some_iff, forall_eq']
    by_cases hname : found.1 = name.1
    · rw [if_pos hname, if_neg (not_not_intro hname)]
    · rw [if_neg hname, if_pos hname]
      rfl

end Stencil.Syntax
