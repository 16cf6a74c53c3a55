import Stencil.Proofs.Soundness

/-!
# Where items stand among the tokens

What a step reads is known with the places of the tokens here, so an item can be compared with the
tags that it was read from: it goes from the start of its first tag to the end of its last one.
The tokens inside a tag matter in one respect only, no tag starts among them and no embed ends.

Specification: `embedTags` for the places where embeds start in a source, `endTags` for those where
they end.

Results:
* `expr_skims`, `clauses_skims`: what is read inside a tag.
* `items_takes`, `parseItems_readAs`: the tokens that items were read from.
* `ReadAs.embedTags`, `ReadAs.endTags`: the embeds among items are those of the source.
-/

namespace Stencil

/-! ## Specification -/

/-- Where the tags `{% embed ... %}` start. -/
def embedTags : List Lexeme → List Nat
  | ⟨.tagOpen, first⟩ :: ⟨.keyword .embed, _⟩ :: rest => first.start :: embedTags rest
  | _ :: rest => embedTags rest
  | [] => []

/-- Where the tags `{% endembed %}` end. -/
def endTags : List Lexeme → List Nat
  | ⟨.keyword .endEmbed, _⟩ :: ⟨.tagClose, last⟩ :: rest => last.stop :: endTags rest
  | _ :: rest => endTags rest
  | [] => []

/-! ## Reading with places -/

namespace Syntax

variable {α β : Type}

/-- When the step succeeds, the tokens it took belong to its result. -/
def Takes (x : Reading α) (made : List Lexeme → α → Prop) : Prop :=
  ∀ c a c', x c = .ok (a, c') → ∃ ls, c.rest = ls ++ c'.rest ∧ made ls a

/-- A token was taken at the given place, or none was. -/
def FoundAt (token : Token) (ls : List Lexeme) : Option Span → Prop
  | none => ls = []
  | some span => ls = [⟨token, span⟩]

namespace Takes

variable {made : List Lexeme → α → Prop}

theorem pure {a : α} (h : made [] a) : Takes (pure a) made := by
  intro c b c' hb
  cases hb
  exact ⟨[], rfl, h⟩

theorem refuse : Takes refuse made := by
  intro c b c' hb
  cases hb

theorem throw {e : Fault} : Takes (throw e) made := by
  intro c b c' hb
  cases hb

theorem bind {x : Reading β} {f : β → Reading α} {read : List Lexeme → β → Prop}
    (hx : Takes x read) (hf : ∀ ls b, read ls b → Takes (f b) fun ms a => made (ls ++ ms) a) :
    Takes (x >>= f) made := by
  intro c a c' h
  obtain ⟨b, mid, hb, ha⟩ := bind_ok.mp h
  obtain ⟨ls, hls, hread⟩ := hx c b mid hb
  obtain ⟨ms, hms, hmade⟩ := hf ls b hread mid a c' ha
  refine ⟨ls ++ ms, ?_, hmade⟩
  rw [hls, hms, List.append_assoc]

theorem mono {x : Reading α} {made' : List Lexeme → α → Prop} (hx : Takes x made)
    (h : ∀ ls a, made ls a → made' ls a) : Takes x made' := by
  intro c a c' ha
  obtain ⟨ls, hls, hmade⟩ := hx c a c' ha
  exact ⟨ls, hls, h ls a hmade⟩

theorem rest_note (c : Cursor) (e : Expectation) : (c.note e).rest = c.rest := by
  rw [Cursor.note]
  split <;> rfl

theorem accept? (t : Token) : Takes (accept? t) (FoundAt t) := by
  intro c found c' h
  unfold Syntax.accept? at h
  split at h
  · next l rest hrest =>
    split at h
    · next ht =>
      cases h
      refine ⟨[l], hrest, ?_⟩
      rw [← ht]
      rfl
    · cases h
      exact ⟨[], (rest_note c _).symm, rfl⟩
  · cases h
    exact ⟨[], (rest_note c _).symm, rfl⟩

/-- A token that may be there. -/
theorem accept {t : Token} {f : Option Span → Reading α} (hnone : Takes (f none) made)
    (hsome : ∀ span, Takes (f (some span)) fun ms a => made (⟨t, span⟩ :: ms) a) :
    Takes (Syntax.accept? t >>= f) made := by
  refine (accept? t).bind fun ls found hfound => ?_
  cases found with
  | none =>
    cases hfound
    exact hnone
  | some span =>
    cases hfound
    exact hsome span

/-- A token that has to be there. -/
theorem expect {t : Token} {f : Span → Reading α}
    (h : ∀ span, Takes (f span) fun ms a => made (⟨t, span⟩ :: ms) a) :
    Takes (expect t >>= f) made := by
  have hread : Takes (Syntax.expect t) fun ls span => ls = [⟨t, span⟩] :=
    accept .refuse fun _ => .pure rfl
  refine hread.bind fun ls span hls => ?_
  subst hls
  exact h span

/-- The next token is taken if it is of some kind. -/
theorem next? {f : Option Lexeme → Reading α} (hend : Takes (f none) made)
    (h : ∀ t span, Takes (f (some ⟨t, span⟩)) made ∨
      ∃ g : Reading α, f (some ⟨t, span⟩) = (do advance; g) ∧
        Takes g fun ms a => made (⟨t, span⟩ :: ms) a) :
    Takes (Syntax.next? >>= f) made := by
  intro c a c' ha
  obtain ⟨found, mid, hfound, ha⟩ := bind_ok.mp ha
  cases hfound
  cases hc : c.rest with
  | nil =>
    rw [hc] at ha
    have hnone := hend c a c' ha
    rwa [hc] at hnone
  | cons l rest =>
    rw [hc] at ha
    obtain hl | ⟨g, hg, hl⟩ := h l.token l.span
    · have hleft := hl c a c' ha
      rwa [hc] at hleft
    · rw [List.head?_cons, hg] at ha
      obtain ⟨_, mid, hmid, ha⟩ := bind_ok.mp ha
      cases hmid
      obtain ⟨ls, hls, hmade⟩ := hl _ a c' ha
      refine ⟨l :: ls, ?_, hmade⟩
      rw [List.cons_append, ← hls]
      simp only [hc, List.tail_cons]

/-- A piece of text is taken; what is done otherwise does not depend on the next token. -/
theorem textOr {f : Option Lexeme → Reading α} {g : String → Span → Reading α}
    (hnone : Takes (f none) made)
    (htext : ∀ content span, f (some ⟨.text content, span⟩) = (do advance; g content span))
    (hother : ∀ t span, (∀ content, t ≠ .text content) → f (some ⟨t, span⟩) = f none)
    (hg : ∀ content span, Takes (g content span) fun ms a => made (⟨.text content, span⟩ :: ms) a) :
    Takes (Syntax.next? >>= f) made := by
  refine next? hnone fun t span => ?_
  by_cases ht : ∃ content, t = .text content
  · obtain ⟨content, rfl⟩ := ht
    exact .inr ⟨_, htext content span, hg content span⟩
  · rw [hother t span fun content h => ht ⟨content, h⟩]
    exact .inl hnone

/-- A step that succeeds at the end of the source only. -/
theorem ending {x : Reading α} (h : Takes x made) : Takes (do refuseUnlessEnd; x) made := by
  intro c a c' ha
  obtain ⟨_, mid, hmid, ha⟩ := bind_ok.mp ha
  rw [refuseUnlessEnd] at hmid
  split at hmid
  · cases hmid
    exact h c a c' ha
  · cases hmid

end Takes

/-! ## Inside a tag -/

/-- A token that stands inside a tag, and does not close an embed. -/
def Inner (t : Token) : Prop := t ≠ .tagOpen ∧ t ≠ .keyword .endEmbed

/-- Tokens that stand inside a tag. -/
def AllInner (ls : List Lexeme) : Prop := ∀ l ∈ ls, Inner l.token

theorem allInner_nil : AllInner [] := by
  intro l hl
  cases hl

theorem AllInner.append {ls ms : List Lexeme} (hls : AllInner ls) (hms : AllInner ms) :
    AllInner (ls ++ ms) := by
  intro l hl
  obtain hl | hl := List.mem_append.mp hl
  · exact hls l hl
  · exact hms l hl

/-- The step takes tokens inside a tag only. -/
def Skims (x : Reading α) : Prop := Takes x fun ls _ => AllInner ls

namespace Skims

theorem pure (a : α) : Skims (pure a) := Takes.pure allInner_nil

theorem refuse : Skims (refuse : Reading α) := Takes.refuse

theorem bind {x : Reading β} {f : β → Reading α} (hx : Skims x) (hf : ∀ b, Skims (f b)) :
    Skims (x >>= f) :=
  Takes.bind hx fun _ b hls => Takes.mono (hf b) fun _ _ hms => hls.append hms

theorem accept? {t : Token} (ht : Inner t) : Skims (accept? t) := by
  refine (Takes.accept? t).mono fun ls found hfound => ?_
  cases found with
  | none =>
    cases hfound
    exact allInner_nil
  | some span =>
    cases hfound
    intro l hl
    obtain rfl := List.mem_singleton.mp hl
    exact ht

theorem expect {t : Token} (ht : Inner t) : Skims (expect t) := by
  refine (accept? ht).bind fun found => ?_
  cases found with
  | none => exact .refuse
  | some span => exact .pure span

/-- A step that takes the next token if it is of some kind. -/
theorem next? {f : Option Lexeme → Reading α} (hend : Skims (f none))
    (h : ∀ t span, Skims (f (some ⟨t, span⟩)) ∨
      ∃ g : Reading α, f (some ⟨t, span⟩) = (do advance; g) ∧ Inner t ∧ Skims g) :
    Skims (Syntax.next? >>= f) := by
  refine Takes.next? hend fun t span => ?_
  obtain hother | ⟨g, hg, ht, hskims⟩ := h t span
  · exact .inl hother
  · refine .inr ⟨g, hg, Takes.mono hskims fun ls _ hls => ?_⟩
    intro l hl
    obtain rfl | hl := List.mem_cons.mp hl
    · exact ht
    · exact hls l hl

theorem ident? : Skims ident? := by
  refine next? (.pure _) fun t span => ?_
  cases t with
  | ident name => exact .inr ⟨_, rfl, ⟨nofun, nofun⟩, .pure _⟩
  | _ => exact .inl (.pure _)

theorem ident : Skims ident := by
  refine ident?.bind fun found => ?_
  cases found with
  | none => exact .refuse
  | some found => exact .pure found

end Skims

theorem inner_mark (m : Mark) : Inner (.mark m) := ⟨nofun, nofun⟩

theorem literal?_skims : Skims literal? := by
  refine .next? (.pure _) fun t span => ?_
  cases t with
  | string s => exact .inr ⟨_, rfl, ⟨nofun, nofun⟩, .pure _⟩
  | number x => cases x <;> exact .inr ⟨_, rfl, ⟨nofun, nofun⟩, .pure _⟩
  | bool b => exact .inr ⟨_, rfl, ⟨nofun, nofun⟩, .pure _⟩
  | null => exact .inr ⟨_, rfl, ⟨nofun, nofun⟩, .pure _⟩
  | _ => exact .inl (.pure _)

theorem key?_skims : Skims key? := by
  refine .next? (.pure _) fun t span => ?_
  cases t with
  | ident name => exact .inr ⟨_, rfl, ⟨nofun, nofun⟩, .pure _⟩
  | string name => exact .inr ⟨_, rfl, ⟨nofun, nofun⟩, .pure _⟩
  | _ => exact .inl (.pure _)

theorem attributes_skims (n : Nat) (object : Expr) : Skims (attributes n object) := by
  induction n generalizing object with
  | zero => exact .refuse
  | succ n ih =>
    rw [attributes]
    refine .bind (.accept? (inner_mark _)) fun found => ?_
    cases found with
    | none => exact .pure _
    | some span => exact .bind .ident fun _ => ih _

/-- The functions for expressions take tokens inside a tag only, with some bound on the steps. -/
structure ExpressionsSkim (n : Nat) : Prop where
  expr : Skims (expr? n)
  joined : ∀ left : Expr, Skims (joined n left)
  operand : Skims (operand? n)
  atom : Skims (atom? n)
  exprs : Skims (exprs n)
  entries : Skims (entries n)

namespace ExpressionsSkim

variable {n : Nat} (ih : ExpressionsSkim n)
include ih

theorem succ_expr : Skims (expr? (n + 1)) := by
  rw [expr?]
  refine .bind ih.operand fun found => ?_
  cases found with
  | none => exact .pure _
  | some first => exact .bind (ih.joined first) fun _ => .pure _

theorem succ_joined (left : Expr) : Skims (Syntax.joined (n + 1) left) := by
  rw [Syntax.joined]
  refine .bind (.accept? (inner_mark _)) fun found => ?_
  cases found with
  | none => exact .pure _
  | some span =>
    refine .bind ih.operand fun found => ?_
    cases found with
    | none => exact .refuse
    | some right => exact ih.joined _

theorem succ_operand : Skims (operand? (n + 1)) := by
  rw [operand?]
  refine .bind ih.atom fun found => ?_
  cases found with
  | none => exact .pure _
  | some base => exact .bind (attributes_skims n base) fun _ => .pure _

theorem succ_atom : Skims (atom? (n + 1)) := by
  rw [atom?]
  refine .bind literal?_skims fun found => ?_
  cases found with
  | some e => exact .pure _
  | none =>
  refine .bind (.accept? (inner_mark _)) fun brace => ?_
  cases brace with
  | some first => exact .bind ih.entries fun _ => .bind (.expect (inner_mark _)) fun _ => .pure _
  | none =>
  refine .bind (.accept? (inner_mark _)) fun bracket => ?_
  cases bracket with
  | some first => exact .bind ih.exprs fun _ => .bind (.expect (inner_mark _)) fun _ => .pure _
  | none =>
  refine .bind .ident? fun name => ?_
  cases name with
  | some name =>
    refine .bind (.accept? (inner_mark _)) fun paren => ?_
    cases paren with
    | none => exact .pure _
    | some span =>
      exact .bind ih.exprs fun _ => .bind (.expect (inner_mark _)) fun _ => .pure _
  | none =>
  refine .bind (.accept? (inner_mark _)) fun paren => ?_
  cases paren with
  | none => exact .pure _
  | some span =>
    refine .bind ih.expr fun found => ?_
    cases found with
    | none => exact .refuse
    | some e => exact .bind (.expect (inner_mark _)) fun _ => .pure _

theorem succ_exprs : Skims (Syntax.exprs (n + 1)) := by
  rw [Syntax.exprs]
  refine .bind ih.expr fun found => ?_
  cases found with
  | none => exact .pure _
  | some e =>
    refine .bind (.accept? (inner_mark _)) fun comma => ?_
    cases comma with
    | none => exact .pure _
    | some span => exact .bind ih.exprs fun _ => .pure _

theorem succ_entries : Skims (Syntax.entries (n + 1)) := by
  rw [Syntax.entries]
  refine .bind key?_skims fun found => ?_
  cases found with
  | none => exact .pure _
  | some key =>
    refine .bind (.expect (inner_mark _)) fun _ => .bind ih.expr fun found => ?_
    cases found with
    | none => exact .refuse
    | some e =>
      refine .bind (.accept? (inner_mark _)) fun comma => ?_
      cases comma with
      | none => exact .pure _
      | some span => exact .bind ih.entries fun _ => .pure _

end ExpressionsSkim

/-- By induction on the bound: every function calls the others with a smaller one. -/
theorem expressionsSkim (n : Nat) : ExpressionsSkim n := by
  induction n with
  | zero => exact ⟨.refuse, fun _ => .refuse, .refuse, .refuse, .refuse, .refuse⟩
  | succ n ih =>
    exact ⟨ih.succ_expr, ih.succ_joined, ih.succ_operand, ih.succ_atom, ih.succ_exprs,
      ih.succ_entries⟩

theorem expr_skims (n : Nat) : Skims (expr n) := by
  refine .bind (expressionsSkim n).expr fun found => ?_
  cases found with
  | none => exact .refuse
  | some e => exact .pure e

theorem clauses_skims (n : Nat) : Skims (clauses n) := by
  have hafter (ignoreMissing : Bool) : Skims (clausesAfter n ignoreMissing) := by
    refine .bind ?_ fun _ => .bind (.accept? ⟨nofun, nofun⟩) fun _ => .pure _
    refine .bind (.accept? ⟨nofun, nofun⟩) fun found => ?_
    cases found with
    | none => exact .pure _
    | some span => exact .bind (expr_skims n) fun _ => .pure _
  rw [clauses_eq]
  refine .bind (.accept? ⟨nofun, nofun⟩) fun found => ?_
  cases found with
  | none => exact hafter false
  | some span => exact .bind (.expect ⟨nofun, nofun⟩) fun _ => hafter true

/-! ## Items -/

/-- A tag: its keyword, and what stands between that and its end. -/
def tagged (first : Span) (word : Lexeme) (inner : List Lexeme) (last : Span) : List Lexeme :=
  ⟨.tagOpen, first⟩ :: word :: (inner ++ [⟨.tagClose, last⟩])

/-- Tokens that items were read from. An item goes from the start of its first tag to the end of its
    last one. -/
inductive ReadAs : List Lexeme → List Item → Prop
  | nil : ReadAs [] []
  | text {span : Span} {content : String} {ls : List Lexeme} {items : List Item} :
      ReadAs ls items → ReadAs (⟨.text content, span⟩ :: ls) (.text span content :: items)
  | print {first last : Span} {inner ls : List Lexeme} {expr : Expr} {items : List Item} :
      AllInner inner → ReadAs ls items →
      ReadAs (⟨.printOpen, first⟩ :: (inner ++ ⟨.printClose, last⟩ :: ls))
        (.print (first.upTo last) expr :: items)
  | block {first word opened closed ending last : Span} {inner outer body ls : List Lexeme}
      {name : String} {enclosed items : List Item} :
      AllInner inner → AllInner outer → ReadAs body enclosed → ReadAs ls items →
      ReadAs (tagged first ⟨.keyword .block, word⟩ inner opened ++
          (body ++ (tagged closed ⟨.keyword .endBlock, ending⟩ outer last ++ ls)))
        (.block (first.upTo last) name enclosed :: items)
  | «include» {first word last : Span} {inner ls : List Lexeme} {target : Expr} {clauses : Clauses}
      {items : List Item} : AllInner inner → ReadAs ls items →
      ReadAs (tagged first ⟨.keyword .«include», word⟩ inner last ++ ls)
        (.«include» (first.upTo last) target clauses :: items)
  | embed {first word opened closed ending last : Span} {inner body ls : List Lexeme}
      {target : Expr} {clauses : Clauses} {enclosed items : List Item} :
      AllInner inner → ReadAs body enclosed → ReadAs ls items →
      ReadAs (tagged first ⟨.keyword .embed, word⟩ inner opened ++
          (body ++ (tagged closed ⟨.keyword .endEmbed, ending⟩ [] last ++ ls)))
        (.embed (first.upTo last) target clauses enclosed :: items)
  | «extends» {first word last : Span} {inner ls : List Lexeme} {parent : Expr}
      {items : List Item} : AllInner inner → ReadAs ls items →
      ReadAs (tagged first ⟨.keyword .«extends», word⟩ inner last ++ ls)
        (.«extends» (first.upTo last) parent :: items)

/-- Tokens that items were read from, up to the keyword of the tag that closes them. -/
def ReadUpTo (closing : Option Keyword) (ls : List Lexeme) (found : List Item) : Prop :=
  match closing with
  | none => ReadAs ls found
  | some k => ∃ body first word, ls = body ++ [⟨.tagOpen, first⟩, ⟨.keyword k, word⟩] ∧
      ReadAs body found

section Tags

variable {closing : Option Keyword} {n : Nat}
  (ih : ∀ closing, Takes (items closing n) (ReadUpTo closing))

include ih

/-- An item before items that were read. -/
theorem itemsAfter_takes {item : Item} {placed : List Lexeme → List Lexeme}
    (happend : ∀ ls ms, placed (ls ++ ms) = placed ls ++ ms)
    (hread : ∀ ls found, ReadAs ls found → ReadAs (placed ls) (item :: found)) :
    Takes (itemsAfter closing n item) fun ls all => ReadUpTo closing (placed ls) all := by
  refine (ih closing).bind fun ls rest hrest => .pure ?_
  rw [List.append_nil]
  cases closing with
  | none => exact hread ls rest hrest
  | some k =>
    obtain ⟨body, first, word, rfl, hbody⟩ := hrest
    exact ⟨placed body, first, word, happend body _, hread body rest hbody⟩

theorem printTag_takes (first : Span) :
    Takes (printTag closing n first) fun ls => ReadUpTo closing (⟨.printOpen, first⟩ :: ls) := by
  refine Takes.bind (expr_skims n) fun inner e hinner => .expect fun last => ?_
  refine itemsAfter_takes ih (fun ls ms => by simp) fun ls found h => ?_
  simpa using ReadAs.print hinner h

theorem blockTag_takes (first keyword : Span) :
    Takes (blockTag closing n first keyword) fun ls =>
      ReadUpTo closing (⟨.tagOpen, first⟩ :: ⟨.keyword .block, keyword⟩ :: ls) := by
  rw [blockTag_eq]
  refine Takes.bind Skims.ident fun inner name hinner => .expect fun opened => ?_
  refine (ih (some .endBlock)).bind ?_
  rintro _ found ⟨body, closed, word, rfl, hbody⟩
  refine Takes.bind Skims.ident? fun outer ending houter => .expect fun last => ?_
  split
  case isFalse => exact .throw
  case isTrue =>
    refine itemsAfter_takes ih (fun ls ms => by simp) fun ls all h => ?_
    simpa [tagged] using ReadAs.block hinner houter hbody h

theorem embedTag_takes (first keyword : Span) :
    Takes (embedTag closing n first) fun ls =>
      ReadUpTo closing (⟨.tagOpen, first⟩ :: ⟨.keyword .embed, keyword⟩ :: ls) := by
  refine Takes.bind (expr_skims n) fun inner target hinner => ?_
  refine Takes.bind (clauses_skims n) fun inner' found hinner' => .expect fun opened => ?_
  refine (ih (some .endEmbed)).bind ?_
  rintro _ enclosed ⟨body, closed, word, rfl, hbody⟩
  refine .expect fun last => itemsAfter_takes ih (fun ls ms => by simp) fun ls all h => ?_
  simpa [tagged] using ReadAs.embed (hinner.append hinner') hbody h

theorem includeTag_takes (first keyword : Span) :
    Takes (includeTag closing n first) fun ls =>
      ReadUpTo closing (⟨.tagOpen, first⟩ :: ⟨.keyword .«include», keyword⟩ :: ls) := by
  refine Takes.bind (expr_skims n) fun inner target hinner => ?_
  refine Takes.bind (clauses_skims n) fun inner' found hinner' => .expect fun last => ?_
  refine itemsAfter_takes ih (fun ls ms => by simp) fun ls all h => ?_
  simpa [tagged] using ReadAs.«include» (hinner.append hinner') h

theorem extendsTag_takes (first keyword : Span) :
    Takes (extendsTag closing n first) fun ls =>
      ReadUpTo closing (⟨.tagOpen, first⟩ :: ⟨.keyword .«extends», keyword⟩ :: ls) := by
  refine Takes.bind (expr_skims n) fun inner parent hinner => .expect fun last => ?_
  refine itemsAfter_takes ih (fun ls ms => by simp) fun ls all h => ?_
  simpa [tagged] using ReadAs.«extends» hinner h

end Tags

/-- By induction on the bound: what a tag encloses, and what follows it, is read with a smaller
    one. -/
theorem items_takes (closing : Option Keyword) (n : Nat) :
    Takes (items closing n) (ReadUpTo closing) := by
  induction n generalizing closing with
  | zero => exact .refuse
  | succ n ih =>
    unfold items
    refine .textOr ?_ (fun _ _ => rfl) ?other fun content span =>
      itemsAfter_takes ih (fun ls ms => by simp) fun ls found h => .text h
    case other =>
      intro t span ht
      cases t with
      | text content => exact absurd rfl (ht content)
      | _ => rfl
    refine .accept ?_ fun first => printTag_takes ih first
    refine .accept ?closed fun first => ?_
    case closed =>
      cases closing with
      | none => exact .ending (.pure .nil)
      | some k => exact .refuse
    refine .accept ?_ fun keyword => blockTag_takes ih first keyword
    refine .accept ?_ fun keyword => embedTag_takes ih first keyword
    refine .accept ?_ fun keyword => includeTag_takes ih first keyword
    refine .accept ?_ fun keyword => extendsTag_takes ih first keyword
    cases closing with
    | none => exact .refuse
    | some k => exact .expect fun word => .pure ⟨[], first, word, rfl, .nil⟩

/-- The items of a source are read from its tokens. -/
theorem parseItems_run {source : List Char} {items : List Item}
    (h : parseItems source = .ok items) :
    ∃ ls c, lexemes source = .ok ls ∧
      Syntax.items none (bound ls) { rest := ls, stop := Text.utf8Length source } =
        .ok (items, c) := by
  unfold parseItems at h
  cases hls : lexemes source with
  | error fault =>
    rw [hls] at h
    cases h
  | ok ls =>
    rw [hls] at h
    change itemsOf ls (Text.utf8Length source) = .ok items at h
    unfold itemsOf at h
    cases hrun : Syntax.items none (bound ls) { rest := ls, stop := Text.utf8Length source } with
    | error fault =>
      rw [hrun] at h
      cases h
    | ok r =>
      rw [hrun] at h
      cases h
      exact ⟨ls, r.2, rfl, hrun⟩

/-- The items of a source were read from all of its tokens. -/
theorem parseItems_readAs {source : List Char} {items : List Item}
    (h : parseItems source = .ok items) :
    ∃ ls, lexemes source = .ok ls ∧ ReadAs ls items := by
  obtain ⟨ls, c, hls, hrun⟩ := parseItems_run h
  obtain ⟨taken, htaken, hread⟩ := items_takes none (bound ls) _ items c hrun
  have hend : c.rest = [] := List.map_eq_nil_iff.mp (items_none_ends _ _ items c hrun)
  rw [hend, List.append_nil] at htaken
  exact ⟨taken, by rw [← htaken, hls], hread⟩

end Syntax

/-! ## The embeds of a source -/

mutual

/-- The places of the embeds in an item, in the order of their ends. -/
def Item.embeds : Item → List Span
  | .block _ _ body => Item.embedsIn body
  | .embed span _ _ body => Item.embedsIn body ++ [span]
  | _ => []

/-- The places of the embeds in items. -/
def Item.embedsIn : List Item → List Span
  | [] => []
  | item :: rest => item.embeds ++ Item.embedsIn rest

end

open Syntax (Inner AllInner ReadAs tagged)

theorem embedTags_cons {l : Lexeme} (h : l.token ≠ .tagOpen) (ls : List Lexeme) :
    embedTags (l :: ls) = embedTags ls := by
  refine embedTags.eq_2 l ls fun first word rest hl _ => h ?_
  rw [hl]

theorem embedTags_inner {inner : List Lexeme} (h : AllInner inner) (ls : List Lexeme) :
    embedTags (inner ++ ls) = embedTags ls := by
  induction inner with
  | nil => rfl
  | cons l rest ih =>
    have hl := h l List.mem_cons_self
    have hrest : AllInner rest := fun m hm => h m (List.mem_cons_of_mem l hm)
    rw [List.cons_append, embedTags_cons hl.1, ih hrest]

theorem embedTags_tagged {inner : List Lexeme} (h : AllInner inner) (first word last : Span)
    (k : Keyword) (ls : List Lexeme) :
    embedTags (tagged first ⟨.keyword k, word⟩ inner last ++ ls) =
      (if k = .embed then [first.start] else []) ++ embedTags ls := by
  have hinside : embedTags (inner ++ ⟨.tagClose, last⟩ :: ls) = embedTags ls := by
    rw [embedTags_inner h, embedTags_cons (by simp)]
  have htag : tagged first ⟨.keyword k, word⟩ inner last ++ ls =
      ⟨.tagOpen, first⟩ :: ⟨.keyword k, word⟩ :: (inner ++ ⟨.tagClose, last⟩ :: ls) := by
    simp [tagged]
  rw [htag, ← hinside]
  cases k <;> simp [embedTags]

theorem endTags_cons {l : Lexeme} (h : l.token ≠ .keyword .endEmbed) (ls : List Lexeme) :
    endTags (l :: ls) = endTags ls := by
  refine endTags.eq_2 l ls fun word last rest hl _ => h ?_
  rw [hl]

theorem endTags_inner {inner : List Lexeme} (h : AllInner inner) (ls : List Lexeme) :
    endTags (inner ++ ls) = endTags ls := by
  induction inner with
  | nil => rfl
  | cons l rest ih =>
    have hl := h l List.mem_cons_self
    have hrest : AllInner rest := fun m hm => h m (List.mem_cons_of_mem l hm)
    rw [List.cons_append, endTags_cons hl.2, ih hrest]

theorem endTags_tagged {inner : List Lexeme} (h : AllInner inner) {k : Keyword}
    (hk : k ≠ .endEmbed) (first word last : Span) (ls : List Lexeme) :
    endTags (tagged first ⟨.keyword k, word⟩ inner last ++ ls) = endTags ls := by
  have hword : (⟨.keyword k, word⟩ : Lexeme).token ≠ .keyword .endEmbed := by
    intro hkey
    cases hkey
    exact hk rfl
  have htag : tagged first ⟨.keyword k, word⟩ inner last ++ ls =
      ⟨.tagOpen, first⟩ :: ⟨.keyword k, word⟩ :: (inner ++ ⟨.tagClose, last⟩ :: ls) := by
    simp [tagged]
  rw [htag, endTags_cons (by simp), endTags_cons hword, endTags_inner h, endTags_cons (by simp)]

theorem endTags_endEmbed (first word last : Span) (ls : List Lexeme) :
    endTags (tagged first ⟨.keyword .endEmbed, word⟩ [] last ++ ls) = last.stop :: endTags ls := by
  simp [tagged, endTags]

namespace Syntax.ReadAs

variable {ls : List Lexeme} {items : List Item}

/-- The embeds among the items start where the embed tags do. -/
theorem embedTags_append (h : ReadAs ls items) (more : List Lexeme) :
    (embedTags (ls ++ more)).Perm ((Item.embedsIn items).map Span.start ++ embedTags more) := by
  induction h generalizing more with
  | nil => simp [Item.embedsIn]
  | text _ ih =>
    rw [List.cons_append, embedTags_cons (by simp)]
    simpa [Item.embedsIn, Item.embeds] using ih more
  | print hinner _ ih =>
    rw [List.cons_append, List.append_assoc, embedTags_cons (by simp), embedTags_inner hinner,
      List.cons_append, embedTags_cons (by simp)]
    simpa [Item.embedsIn, Item.embeds] using ih more
  | @block first word opened closed ending last inner outer body ls name enclosed items hinner
      houter _ _ ihBody ih =>
    have hbody := ihBody (tagged closed ⟨.keyword .endBlock, ending⟩ outer last ++ (ls ++ more))
    rw [embedTags_tagged houter] at hbody
    simp only [List.append_assoc, embedTags_tagged hinner]
    refine hbody.trans ?_
    simpa [Item.embedsIn, Item.embeds] using (ih more).append_left _
  | «include» hinner _ ih =>
    rw [List.append_assoc, embedTags_tagged hinner]
    simpa [Item.embedsIn, Item.embeds] using ih more
  | @embed first word opened closed ending last inner body ls target clauses enclosed items hinner
      _ _ ihBody ih =>
    have hbody := ihBody (tagged closed ⟨.keyword .endEmbed, ending⟩ [] last ++ (ls ++ more))
    have hrest := ih more
    rw [embedTags_tagged Syntax.allInner_nil] at hbody
    have hembeds : (Item.embedsIn (.embed (first.upTo last) target clauses enclosed :: items)).map
        Span.start = (Item.embedsIn enclosed).map Span.start ++
          first.start :: (Item.embedsIn items).map Span.start := by
      simp [Item.embedsIn, Item.embeds, Span.upTo]
    simp only [List.append_assoc, embedTags_tagged hinner, hembeds]
    rw [List.perm_iff_count]
    intro start
    have hbody := hbody.count_eq start
    have hrest := hrest.count_eq start
    simp only [reduceCtorEq, if_true, if_false, List.nil_append, List.count_append,
      List.count_cons, List.count_nil] at hbody hrest ⊢
    omega
  | «extends» hinner _ ih =>
    rw [List.append_assoc, embedTags_tagged hinner]
    simpa [Item.embedsIn, Item.embeds] using ih more

/-- The embeds among the items end where the tags that close embeds do, in the same order. -/
theorem endTags_append (h : ReadAs ls items) (more : List Lexeme) :
    endTags (ls ++ more) = (Item.embedsIn items).map Span.stop ++ endTags more := by
  induction h generalizing more with
  | nil => simp [Item.embedsIn]
  | text _ ih =>
    rw [List.cons_append, endTags_cons (by simp)]
    simpa [Item.embedsIn, Item.embeds] using ih more
  | print hinner _ ih =>
    rw [List.cons_append, List.append_assoc, endTags_cons (by simp), endTags_inner hinner,
      List.cons_append, endTags_cons (by simp)]
    simpa [Item.embedsIn, Item.embeds] using ih more
  | block hinner houter _ _ ihBody ih =>
    simp only [List.append_assoc]
    rw [endTags_tagged hinner (by decide), ihBody, endTags_tagged houter (by decide), ih]
    simp [Item.embedsIn, Item.embeds]
  | «include» hinner _ ih =>
    rw [List.append_assoc, endTags_tagged hinner (by decide), ih]
    simp [Item.embedsIn, Item.embeds]
  | embed hinner _ _ ihBody ih =>
    simp only [List.append_assoc]
    rw [endTags_tagged hinner (by decide), ihBody, endTags_endEmbed, ih]
    simp [Item.embedsIn, Item.embeds, Span.upTo]
  | «extends» hinner _ ih =>
    rw [List.append_assoc, endTags_tagged hinner (by decide), ih]
    simp [Item.embedsIn, Item.embeds]

theorem embedTags (h : ReadAs ls items) :
    (Stencil.embedTags ls).Perm ((Item.embedsIn items).map Span.start) := by
  simpa [Stencil.embedTags] using h.embedTags_append []

theorem endTags (h : ReadAs ls items) :
    Stencil.endTags ls = (Item.embedsIn items).map Span.stop := by
  simpa [Stencil.endTags] using h.endTags_append []

end Syntax.ReadAs

end Stencil
