import Stencil.Proofs.Bytes

/-!
# Nothing of a source is lost

The characters of a source are laid out as texts, comments and tags, and those of a tag as tokens
and blanks. Whatever `lexemes` finds is laid out in this way, and that tells where every token and
every byte of the source is.

Results:
* `laid_of_lexemesFrom`: the tokens that are found are laid out in the source.
* `lexemes_lossless`: the lexer never cuts inside a character, and its tokens lose nothing.
-/

namespace Stencil

/-- The tokens that the code of a tag is made of. -/
def Token.IsCode : Token → Prop
  | .text _ | .printOpen | .printClose | .tagOpen | .tagClose => False
  | _ => True

namespace Syntax

/-! ## The layout of a source

The first list of characters is what stands before, so that its length is an offset in the
source. -/

/-- The span of some characters after others. -/
def spanAfter (front piece : List Char) : Span :=
  ⟨Text.utf8Length front, Text.utf8Length (front ++ piece)⟩

/-- The characters that open a tag. -/
def tagOpener (isPrint : Bool) : List Char := ['\x7b', (tagDelimiter isPrint).inner]

/-- The characters that close a tag. -/
def tagCloser (isPrint : Bool) : List Char := [(tagDelimiter isPrint).closing, '\x7d']

/-- The code of a tag as its tokens and the blanks around them. -/
inductive LaidCode : List Char → List Char → List Lexeme → Prop
  | nil (front : List Char) : LaidCode front [] []
  | blank {front rest : List Char} {c : Char} {ls : List Lexeme} : isSpace c = true →
      LaidCode (front ++ [c]) rest ls → LaidCode front (c :: rest) ls
  | token {front piece rest : List Char} {t : Token} {ls : List Lexeme} : t.IsCode → piece ≠ [] →
      LaidCode (front ++ piece) rest ls →
      LaidCode front (piece ++ rest) (⟨t, spanAfter front piece⟩ :: ls)

/-- A source as its texts, comments and tags. -/
inductive Laid : List Char → List Char → List Lexeme → Prop
  | nil (front : List Char) : Laid front [] []
  | text {front content rest : List Char} {ls : List Lexeme} : content ≠ [] → Plain content →
      Laid (front ++ content) rest ls →
      Laid front (content ++ rest)
        (⟨.text (String.ofList content), spanAfter front content⟩ :: ls)
  | comment {front content rest : List Char} {ls : List Lexeme} :
      ¬ ['#', '\x7d'] <:+: content → Laid (front ++ Delimiter.comment.enclose content) rest ls →
      Laid front (Delimiter.comment.enclose content ++ rest) ls
  | tag {front content rest : List Char} {inner ls : List Lexeme} (isPrint : Bool) :
      LaidCode (front ++ tagOpener isPrint) content inner →
      Laid (front ++ tagOpener isPrint ++ content ++ tagCloser isPrint) rest ls →
      Laid front (tagOpener isPrint ++ (content ++ (tagCloser isPrint ++ rest)))
        (⟨openingToken isPrint, spanAfter front (tagOpener isPrint)⟩ :: inner ++
          ⟨closingToken isPrint,
            spanAfter (front ++ tagOpener isPrint ++ content) (tagCloser isPrint)⟩ :: ls)

/-! ## What is found is laid out -/

theorem ofWord_isCode (word : String) : (Token.ofWord word).IsCode := by
  rw [Token.ofWord]
  split
  · trivial
  split
  · trivial
  split
  · trivial
  split <;> trivial

theorem nextToken_isCode {c : Char} {cs consumed rest : List Char} {t : Token}
    (h : nextToken c cs = .token t consumed rest) : t.IsCode := by
  unfold nextToken at h
  split at h
  · cases h
    exact ofWord_isCode _
  split at h
  · dsimp only at h
    split at h
    · cases h
      trivial
    · cases h
      trivial
  split at h
  · split at h
    · cases h
      trivial
    · cases h
  split at h
  · cases h
    trivial
  · cases h

theorem laidCode_of_codeLexemes {front cs : List Char} {ls : List Lexeme}
    (h : codeLexemes (Text.utf8Length front) cs = .ok ls) : LaidCode front cs ls := by
  generalize hstart : Text.utf8Length front = start at h
  fun_induction codeLexemes start cs generalizing front ls with
  | case1 =>
    cases h
    exact .nil front
  | case2 start c rest hc ih =>
    refine .blank hc (ih ?_ h)
    rw [Text.utf8Length_append, hstart, Text.utf8Length_cons]
    rfl
  | case3 => cases h
  | case4 start c rest hc t consumed after hnext stop =>
    rename_i ih
    obtain ⟨tail, htail, rfl⟩ := nextToken_append hnext
    have hstop : stop = Text.utf8Length (front ++ consumed) := by
      rw [Text.utf8Length_append, hstart]
    cases hafter : codeLexemes stop after with
    | error fault =>
      rw [hafter] at h
      cases h
    | ok found =>
      rw [hafter] at h
      cases h
      have hconsumed : consumed ≠ [] := by
        rw [htail]
        exact List.cons_ne_nil c tail
      have hlaid : LaidCode front (consumed ++ after) _ :=
        .token (nextToken_isCode hnext) hconsumed (ih hstop.symm hafter)
      rw [spanAfter, ← hstop, hstart, htail] at hlaid
      exact hlaid

theorem laid_of_textLexemes {front text rest : List Char} {ls : List Lexeme} (htext : Plain text)
    (h : Laid (front ++ text) rest ls) :
    Laid front (text ++ rest) (textLexemes (Text.utf8Length front) text ++ ls) := by
  by_cases hempty : text = []
  · subst hempty
    rw [List.append_nil] at h
    exact h
  · have hlaid := Laid.text hempty htext h
    rw [spanAfter, Text.utf8Length_append] at hlaid
    rw [textLexemes, if_neg (by simpa using hempty)]
    exact hlaid

theorem laid_of_tag (isPrint : Bool) {front content rest : List Char} {part ls : List Lexeme}
    (hpart : (Part.code (Text.utf8Length front) isPrint content).lexemes = .ok part)
    (h : Laid (front ++ (tagDelimiter isPrint).enclose content) rest ls) :
    Laid front ((tagDelimiter isPrint).enclose content ++ rest) (part ++ ls) := by
  have hopened : Text.utf8Length (front ++ tagOpener isPrint) = Text.utf8Length front + 2 := by
    rw [Text.utf8Length_append]
    cases isPrint <;> rfl
  have hclosed : Text.utf8Length (front ++ tagOpener isPrint ++ content) =
      Text.utf8Length front + 2 + Text.utf8Length content := by
    rw [Text.utf8Length_append, hopened]
  have hstop : Text.utf8Length (front ++ tagOpener isPrint ++ content ++ tagCloser isPrint) =
      Text.utf8Length front + 2 + Text.utf8Length content + 2 := by
    rw [Text.utf8Length_append, hclosed]
    cases isPrint <;> rfl
  rw [lexemes_code] at hpart
  cases hcode : codeLexemes (Text.utf8Length front + 2) content with
  | error fault =>
    rw [hcode] at hpart
    cases hpart
  | ok inner =>
    rw [hcode] at hpart
    cases hpart
    have hinner : LaidCode (front ++ tagOpener isPrint) content inner :=
      laidCode_of_codeLexemes (by rw [hopened, hcode])
    have hfront : front ++ (tagDelimiter isPrint).enclose content =
        front ++ tagOpener isPrint ++ content ++ tagCloser isPrint := by
      simp [Delimiter.enclose, tagOpener, tagCloser]
    rw [hfront] at h
    have hlaid := Laid.tag isPrint hinner h
    simp only [spanAfter, hopened, hclosed, hstop] at hlaid
    rw [Delimiter.enclose_append, List.append_assoc]
    exact hlaid

/-- A part and what follows it, from what it encloses. -/
theorem laid_of_part {front content rest : List Char} {kind : Delimiter} {part ls : List Lexeme}
    (hend : kind = .comment → ¬ ['#', '\x7d'] <:+: content)
    (hpart : (kind.part (Text.utf8Length front) content).lexemes = .ok part)
    (h : Laid (front ++ kind.enclose content) rest ls) :
    Laid front (kind.enclose content ++ rest) (part ++ ls) := by
  cases kind with
  | comment =>
    cases hpart
    exact .comment (hend rfl) h
  | print => exact laid_of_tag true hpart h
  | tag => exact laid_of_tag false hpart h

/-- The tokens that are found from an offset on are laid out there. By induction on the parts of the
    source. -/
theorem laid_of_lexemesFrom {front cs : List Char} {ls : List Lexeme}
    (h : lexemesFrom (Text.utf8Length front) cs = .ok ls) : Laid front cs ls := by
  have hplain : Plain (openingIn cs).1 := openingIn_plain cs
  induction cs using parts_induction generalizing front ls with
  | text cs text hopening =>
    rw [hopening, ← openingIn_none hopening] at hplain
    rw [lexemesFrom_text hopening] at h
    cases h
    have hlaid := laid_of_textLexemes hplain (.nil (front ++ cs))
    rwa [List.append_nil, List.append_nil] at hlaid
  | unclosed cs text kind body hopening hcontent =>
    rw [lexemesFrom_unclosed hopening hcontent] at h
    cases h
  | part cs text kind body content rest hopening hcontent ih =>
    rw [hopening] at hplain
    obtain ⟨part, others, hpart, hothers, rfl⟩ := (lexemesFrom_part_ok hopening hcontent front).1 h
    have hend : kind = .comment → ¬ ['#', '\x7d'] <:+: content := by
      rintro rfl
      exact commentEnd_noEnd hcontent
    rw [eq_of_part hopening hcontent, List.append_assoc]
    exact laid_of_textLexemes hplain
      (laid_of_part hend hpart (ih hothers (openingIn_plain rest)))

/-! ## Where the tokens are -/

/-- A token stands at a piece of some characters, and it is the piece if it is a text. -/
def Placed (front cs : List Char) (l : Lexeme) : Prop :=
  ∃ before piece after, cs = before ++ (piece ++ after) ∧ piece ≠ [] ∧
    l.span = spanAfter (front ++ before) piece ∧
    ∀ content, l.token = .text content → content.toList = piece ∧ Plain piece

namespace Placed

variable {front cs rest : List Char} {l : Lexeme}

/-- A token at the front. -/
theorem head {piece : List Char} (hpiece : piece ≠ []) (hspan : l.span = spanAfter front piece)
    (htext : ∀ content, l.token = .text content → content.toList = piece ∧ Plain piece) :
    Placed front (piece ++ rest) l := by
  refine ⟨[], piece, rest, rfl, hpiece, ?_, htext⟩
  rw [List.append_nil]
  exact hspan

/-- A token after some characters. -/
theorem after (piece : List Char) (h : Placed (front ++ piece) rest l) :
    Placed front (piece ++ rest) l := by
  obtain ⟨before, piece', tail, rfl, hpiece, hspan, htext⟩ := h
  refine ⟨piece ++ before, piece', tail, ?_, hpiece, ?_, htext⟩
  · rw [List.append_assoc]
  · rw [hspan, List.append_assoc]

/-- A token before some characters. -/
theorem before (h : Placed front cs l) (rest : List Char) : Placed front (cs ++ rest) l := by
  obtain ⟨before, piece, tail, rfl, hpiece, hspan, htext⟩ := h
  refine ⟨before, piece, tail ++ rest, ?_, hpiece, hspan, htext⟩
  simp only [List.append_assoc]

theorem bounds (h : Placed front cs l) : Text.utf8Length front ≤ l.span.start ∧
    l.span.start < l.span.stop ∧ l.span.stop ≤ Text.utf8Length (front ++ cs) := by
  obtain ⟨before, piece, tail, rfl, hpiece, hspan, -⟩ := h
  have hpos : Text.utf8Length piece ≠ 0 := fun h => hpiece (Text.utf8Length_eq_zero.mp h)
  rw [hspan, spanAfter]
  simp only [Text.utf8Length_append]
  omega

theorem slice (h : Placed front cs l) :
    ∃ piece, Text.slice? (front ++ cs) l.span.start l.span.stop = some piece ∧
      ∀ content, l.token = .text content → content.toList = piece ∧ Plain piece := by
  obtain ⟨before, piece, tail, rfl, hpiece, hspan, htext⟩ := h
  refine ⟨piece, Text.slice?_eq_some.mpr ⟨front ++ before, tail, ?_, ?_, ?_⟩, htext⟩
  · rw [List.append_assoc]
  · rw [hspan, spanAfter]
  · rw [hspan, spanAfter]
    exact (Text.utf8Length_append _ _).symm

end Placed

theorem not_text_of_isCode {t : Token} (h : t.IsCode) (content : String) : t ≠ .text content := by
  rintro rfl
  exact h

theorem openingToken_ne_text (isPrint : Bool) (content : String) :
    openingToken isPrint ≠ .text content := by
  cases isPrint <;> nofun

theorem closingToken_ne_text (isPrint : Bool) (content : String) :
    closingToken isPrint ≠ .text content := by
  cases isPrint <;> nofun

theorem LaidCode.placed {front cs : List Char} {ls : List Lexeme} (h : LaidCode front cs ls) :
    ∀ l ∈ ls, l.token.IsCode ∧ Placed front cs l := by
  induction h with
  | nil => exact fun l hl => nomatch hl
  | @blank front rest c ls hc h ih => exact fun l hl => ⟨(ih l hl).1, (ih l hl).2.after [c]⟩
  | @token front piece rest t ls ht hpiece h ih =>
    intro l hl
    obtain rfl | hl := List.mem_cons.mp hl
    · exact ⟨ht, .head hpiece rfl fun content hcontent =>
        absurd hcontent (not_text_of_isCode ht content)⟩
    · exact ⟨(ih l hl).1, (ih l hl).2.after piece⟩

theorem Laid.placed {front cs : List Char} {ls : List Lexeme} (h : Laid front cs ls) :
    ∀ l ∈ ls, Placed front cs l := by
  induction h with
  | nil => exact fun l hl => nomatch hl
  | @text front content rest ls hcontent hplain h ih =>
    intro l hl
    obtain rfl | hl := List.mem_cons.mp hl
    · refine .head hcontent rfl fun text htext => ?_
      cases htext
      exact ⟨String.toList_ofList, hplain⟩
    · exact (ih l hl).after content
  | @comment front content rest ls hend h ih => exact fun l hl => (ih l hl).after _
  | @tag front content rest inner ls isPrint hinner h ih =>
    intro l hl
    obtain hl | hl := List.mem_append.mp hl
    · obtain rfl | hl := List.mem_cons.mp hl
      · exact .head (List.cons_ne_nil _ _) rfl fun text htext =>
          absurd htext (openingToken_ne_text isPrint text)
      · exact ((hinner.placed l hl).2.before _).after _
    · obtain rfl | hl := List.mem_cons.mp hl
      · refine .after _ (.after _ (.head (List.cons_ne_nil _ _) rfl fun text htext => ?_))
        exact absurd htext (closingToken_ne_text isPrint text)
      · exact (((ih l hl).after _).after _).after _

/-! ## The order of the tokens -/

/-- One token ends before the other one starts. -/
def Precedes (a b : Lexeme) : Prop := a.span.stop ≤ b.span.start

/-- Tokens that stand one after the other. -/
theorem precedes_of_placed {front piece rest : List Char} {l : Lexeme} {span : Span}
    (hspan : span = spanAfter front piece) (h : Placed (front ++ piece) rest l) :
    span.stop ≤ l.span.start := by
  rw [hspan]
  exact h.bounds.1

theorem LaidCode.ordered {front cs : List Char} {ls : List Lexeme} (h : LaidCode front cs ls) :
    ls.Pairwise Precedes := by
  induction h with
  | nil => exact .nil
  | blank hc h ih => exact ih
  | token ht hpiece h ih =>
    refine List.pairwise_cons.mpr ⟨fun l hl => ?_, ih⟩
    exact precedes_of_placed rfl (h.placed l hl).2

theorem Laid.ordered {front cs : List Char} {ls : List Lexeme} (h : Laid front cs ls) :
    ls.Pairwise Precedes := by
  induction h with
  | nil => exact .nil
  | text hcontent hplain h ih =>
    refine List.pairwise_cons.mpr ⟨fun l hl => ?_, ih⟩
    exact precedes_of_placed rfl (h.placed l hl)
  | comment hend h ih => exact ih
  | @tag front content rest inner ls isPrint hinner h ih =>
    refine List.pairwise_append.mpr ⟨?_, ?_, fun a ha b hb => ?_⟩
    · refine List.pairwise_cons.mpr ⟨fun l hl => ?_, hinner.ordered⟩
      exact precedes_of_placed rfl (hinner.placed l hl).2
    · refine List.pairwise_cons.mpr ⟨fun l hl => ?_, ih⟩
      exact precedes_of_placed rfl (h.placed l hl)
    · have hbefore : a.span.stop ≤ Text.utf8Length (front ++ tagOpener isPrint ++ content) := by
        obtain rfl | ha := List.mem_cons.mp ha
        · exact Text.utf8Length_le_append (front ++ tagOpener isPrint) content
        · exact (hinner.placed a ha).2.bounds.2.2
      have hafter : Text.utf8Length (front ++ tagOpener isPrint ++ content) ≤ b.span.start := by
        obtain rfl | hb := List.mem_cons.mp hb
        · exact Nat.le_refl _
        · exact Nat.le_trans (Text.utf8Length_le_append _ (tagCloser isPrint))
            (h.placed b hb).bounds.1
      exact Nat.le_trans hbefore hafter

/-- Texts and tags in a row. A tag is opened, has the tokens of its code, and is closed. -/
inductive Bracketed : List Token → Prop
  | nil : Bracketed []
  | text {rest : List Token} (content : String) : Bracketed rest →
      Bracketed (.text content :: rest)
  | tag {code rest : List Token} (isPrint : Bool) : (∀ t ∈ code, t.IsCode) → Bracketed rest →
      Bracketed (openingToken isPrint :: code ++ closingToken isPrint :: rest)

theorem Laid.bracketed {front cs : List Char} {ls : List Lexeme} (h : Laid front cs ls) :
    Bracketed (ls.map (·.token)) := by
  induction h with
  | nil => exact .nil
  | text hcontent hplain h ih => exact .text _ ih
  | comment hend h ih => exact ih
  | @tag front content rest inner ls isPrint hinner h ih =>
    rw [List.map_append]
    refine .tag isPrint (fun t ht => ?_) ih
    obtain ⟨l, hl, rfl⟩ := List.mem_map.mp ht
    exact (hinner.placed l hl).1

/-! ## What is covered -/

/-- The blanks inside a tag. -/
def blanks : List Char := [' ', '\t', '\r', '\n']

/-- A byte of a source that is a blank. -/
def BlankAt (source : List Char) (p : Nat) : Prop :=
  ∃ c ∈ blanks, (Text.bytes source)[p]? = some (Text.byte c)

/-- An offset between the delimiters of a tag. -/
def InTag (ls : List Lexeme) (p : Nat) : Prop :=
  ∃ before opening inner closing after isPrint,
    ls = before ++ (opening :: inner ++ closing :: after) ∧
    opening.token = openingToken isPrint ∧ closing.token = closingToken isPrint ∧
    (∀ l ∈ inner, l.token.IsCode) ∧ opening.span.stop ≤ p ∧ p < closing.span.start

/-- An offset in a complete comment that starts at a given one or later, and that has no tokens. -/
def InComment (source : List Char) (ls : List Lexeme) (start p : Nat) : Prop :=
  ∃ before content after, source = before ++ (Delimiter.comment.enclose content ++ after) ∧
    ¬ ['#', '\x7d'] <:+: content ∧ start ≤ Text.utf8Length before ∧
    Text.utf8Length before ≤ p ∧
    p < Text.utf8Length (before ++ Delimiter.comment.enclose content) ∧
    ∀ l ∈ ls, l.span.stop ≤ Text.utf8Length before ∨
      Text.utf8Length (before ++ Delimiter.comment.enclose content) ≤ l.span.start

/-- What a byte of a source belongs to: a token, a blank inside a tag or a comment. -/
def Accounted (source : List Char) (ls : List Lexeme) (start p : Nat) : Prop :=
  (∃ l ∈ ls, l.span.start ≤ p ∧ p < l.span.stop) ∨ (BlankAt source p ∧ InTag ls p) ∨
    InComment source ls start p

/-- Tokens before a place do not change what the bytes behind it belong to. -/
theorem Accounted.after {source : List Char} {ls : List Lexeme} {start mid p : Nat}
    (h : Accounted source ls mid p) (hmid : start ≤ mid) (front : List Lexeme)
    (hfront : ∀ l ∈ front, l.span.stop ≤ mid) : Accounted source (front ++ ls) start p := by
  obtain ⟨l, hl, hp⟩ | ⟨hblank, before, opening, inner, closing, after, isPrint, rfl, h⟩ |
    ⟨before, content, after, hsource, hend, hstart, hp, hstop, hls⟩ := h
  · exact .inl ⟨l, List.mem_append_right front hl, hp⟩
  · refine .inr (.inl ⟨hblank, front ++ before, opening, inner, closing, after, isPrint, ?_, h⟩)
    rw [List.append_assoc]
  · refine .inr (.inr ⟨before, content, after, hsource, hend, Nat.le_trans hmid hstart, hp, hstop,
      fun l hl => ?_⟩)
    obtain hl | hl := List.mem_append.mp hl
    · exact .inl (Nat.le_trans (hfront l hl) hstart)
    · exact hls l hl

theorem blankAt_append {cs : List Char} {p : Nat} (h : BlankAt cs p) (rest : List Char) :
    BlankAt (cs ++ rest) p := by
  obtain ⟨c, hc, hbyte⟩ := h
  refine ⟨c, hc, ?_⟩
  have hp : p < (Text.bytes cs).length := (List.getElem?_eq_some_iff.mp hbyte).1
  rw [Text.bytes_append, List.getElem?_append_left hp, hbyte]

/-- In the code of a tag there are only tokens and blanks. -/
theorem LaidCode.accounted {front cs : List Char} {ls : List Lexeme} (h : LaidCode front cs ls)
    {p : Nat} (hstart : Text.utf8Length front ≤ p) (hstop : p < Text.utf8Length (front ++ cs)) :
    (∃ l ∈ ls, l.span.start ≤ p ∧ p < l.span.stop) ∨ BlankAt (front ++ cs) p := by
  induction h with
  | nil front =>
    rw [List.append_nil] at hstop
    omega
  | @blank front rest c ls hc h ih =>
    have hblank : c ∈ blanks ∧ c.utf8Size = 1 ∧ c.toNat < 128 := by
      obtain rfl | rfl | rfl | rfl := isSpace_iff.mp hc <;> decide
    obtain ⟨hblank, hone, hascii⟩ := hblank
    have hsource : front ++ c :: rest = front ++ [c] ++ rest := by simp
    rw [hsource] at hstop ⊢
    by_cases hp : p < Text.utf8Length (front ++ [c])
    · rw [Text.utf8Length_append, Text.utf8Length_cons, hone, Text.utf8Length_nil] at hp
      obtain rfl : p = Text.utf8Length front := by omega
      refine .inr ⟨c, hblank, ?_⟩
      rw [List.append_assoc, Text.getElem?_bytes]
      exact (Text.head?_bytes hascii _).mpr rfl
    · exact ih (Nat.le_of_not_lt hp) hstop
  | @token front piece rest t ls ht hpiece h ih =>
    have hsource : front ++ (piece ++ rest) = front ++ piece ++ rest := by simp
    rw [hsource] at hstop ⊢
    by_cases hp : p < Text.utf8Length (front ++ piece)
    · exact .inl ⟨_, List.mem_cons_self, hstart, hp⟩
    · obtain ⟨l, hl, hlp⟩ | hblank := ih (Nat.le_of_not_lt hp) hstop
      · exact .inl ⟨l, List.mem_cons_of_mem _ hl, hlp⟩
      · exact .inr hblank

section Tag

variable {front content : List Char} {inner : List Lexeme} {isPrint : Bool}

/-- In a tag there are its delimiters, its tokens and blanks. -/
theorem LaidCode.tag_accounted (hinner : LaidCode (front ++ tagOpener isPrint) content inner)
    (rest : List Char) (ls : List Lexeme) {p : Nat} (hstart : Text.utf8Length front ≤ p)
    (hstop : p < Text.utf8Length
      (front ++ tagOpener isPrint ++ content ++ tagCloser isPrint)) :
    Accounted (front ++ tagOpener isPrint ++ content ++ tagCloser isPrint ++ rest)
      (⟨openingToken isPrint, spanAfter front (tagOpener isPrint)⟩ :: inner ++
        ⟨closingToken isPrint,
          spanAfter (front ++ tagOpener isPrint ++ content) (tagCloser isPrint)⟩ :: ls)
      (Text.utf8Length front) p := by
  by_cases hopen : p < Text.utf8Length (front ++ tagOpener isPrint)
  · exact .inl ⟨_, List.mem_append_left _ List.mem_cons_self, hstart, hopen⟩
  by_cases hcode : p < Text.utf8Length (front ++ tagOpener isPrint ++ content)
  · obtain ⟨l, hl, hlp⟩ | hblank := hinner.accounted (Nat.le_of_not_lt hopen) hcode
    · exact .inl ⟨l, List.mem_append_left _ (List.mem_cons_of_mem _ hl), hlp⟩
    · refine .inr (.inl ⟨?_, [], _, inner, _, ls, isPrint, rfl, rfl, rfl, ?_, ?_, hcode⟩)
      · rw [List.append_assoc (front ++ tagOpener isPrint ++ content)]
        exact blankAt_append hblank _
      · exact fun l hl => (hinner.placed l hl).1
      · exact Nat.le_of_not_lt hopen
  · exact .inl ⟨_, List.mem_append_right _ List.mem_cons_self, Nat.le_of_not_lt hcode, hstop⟩

/-- The tokens of a tag end where it does, or before that. -/
theorem LaidCode.tag_stop_le (hinner : LaidCode (front ++ tagOpener isPrint) content inner) :
    ∀ l ∈ ⟨openingToken isPrint, spanAfter front (tagOpener isPrint)⟩ :: inner ++
      [⟨closingToken isPrint,
        spanAfter (front ++ tagOpener isPrint ++ content) (tagCloser isPrint)⟩],
      l.span.stop ≤
        Text.utf8Length (front ++ tagOpener isPrint ++ content ++ tagCloser isPrint) := by
  have hclosing := Text.utf8Length_le_append (front ++ tagOpener isPrint) content
  have hclosed := Text.utf8Length_le_append (front ++ tagOpener isPrint ++ content)
    (tagCloser isPrint)
  intro l hl
  obtain hl | hl := List.mem_append.mp hl
  · obtain rfl | hl := List.mem_cons.mp hl
    · exact Nat.le_trans hclosing hclosed
    · exact Nat.le_trans (hinner.placed l hl).2.bounds.2.2 hclosed
  · cases List.mem_singleton.mp hl
    exact Nat.le_refl _

end Tag

theorem Laid.accounted {front cs : List Char} {ls : List Lexeme} (h : Laid front cs ls)
    {p : Nat} (hstart : Text.utf8Length front ≤ p) (hstop : p < Text.utf8Length (front ++ cs)) :
    Accounted (front ++ cs) ls (Text.utf8Length front) p := by
  induction h with
  | nil front =>
    rw [List.append_nil] at hstop
    omega
  | @text front content rest ls hcontent hplain h ih =>
    rw [← List.append_assoc] at hstop ⊢
    by_cases hp : p < Text.utf8Length (front ++ content)
    · exact .inl ⟨_, List.mem_cons_self, hstart, hp⟩
    have hmid := Text.utf8Length_le_append front content
    refine (ih (Nat.le_of_not_lt hp) hstop).after hmid [_] fun l hl => ?_
    cases List.mem_singleton.mp hl
    exact Nat.le_refl _
  | @comment front content rest ls hend h ih =>
    by_cases hp : p < Text.utf8Length (front ++ Delimiter.comment.enclose content)
    · refine .inr (.inr ⟨front, content, rest, rfl, hend, Nat.le_refl _, hstart, hp, ?_⟩)
      exact fun l hl => .inr (h.placed l hl).bounds.1
    rw [← List.append_assoc] at hstop ⊢
    have hmid := Text.utf8Length_le_append front (Delimiter.comment.enclose content)
    exact (ih (Nat.le_of_not_lt hp) hstop).after hmid [] fun l hl => nomatch hl
  | @tag front content rest inner ls isPrint hinner h ih =>
    have hsource : front ++ (tagOpener isPrint ++ (content ++ (tagCloser isPrint ++ rest))) =
        front ++ tagOpener isPrint ++ content ++ tagCloser isPrint ++ rest := by
      simp only [List.append_assoc]
    rw [hsource] at hstop ⊢
    by_cases hp : p < Text.utf8Length
        (front ++ tagOpener isPrint ++ content ++ tagCloser isPrint)
    · exact hinner.tag_accounted rest ls hstart hp
    have hmid : Text.utf8Length front ≤
        Text.utf8Length (front ++ tagOpener isPrint ++ content ++ tagCloser isPrint) := by
      rw [List.append_assoc, List.append_assoc]
      exact Text.utf8Length_le_append front _
    have hrest := (ih (Nat.le_of_not_lt hp) hstop).after hmid _ hinner.tag_stop_le
    rw [List.append_assoc (_ :: inner) [_] ls] at hrest
    exact hrest

/-! ## Nothing is lost -/

/-- The tokens of a source tell where everything in it is. -/
structure Lossless (source : List Char) (ls : List Lexeme) : Prop where
  /-- Tokens are not empty, and they are inside the source. -/
  bounds : ∀ l ∈ ls, l.span.start < l.span.stop ∧ l.span.stop ≤ Text.utf8Length source
  /-- Tokens stand one after the other. -/
  ordered : ls.Pairwise Precedes
  /-- A token starts and ends between characters. -/
  sliced : ∀ l ∈ ls, ∃ piece, Text.slice? source l.span.start l.span.stop = some piece
  /-- A text is the slice of its place, and nothing in it opens a comment or a tag. -/
  texts : ∀ l ∈ ls, ∀ content, l.token = .text content →
    Text.slice? source l.span.start l.span.stop = some content.toList ∧ Plain content.toList
  /-- Between texts there are complete tags. -/
  bracketed : Bracketed (ls.map (·.token))
  /-- A byte without a token is a blank of a tag or belongs to a comment. -/
  accounted : ∀ p < Text.utf8Length source, Accounted source ls 0 p

theorem Laid.lossless {source : List Char} {ls : List Lexeme} (h : Laid [] source ls) :
    Lossless source ls where
  bounds l hl := (h.placed l hl).bounds.2
  ordered := h.ordered
  sliced l hl := by
    obtain ⟨piece, hpiece, -⟩ := (h.placed l hl).slice
    exact ⟨piece, hpiece⟩
  texts l hl content hcontent := by
    obtain ⟨piece, hpiece, htext⟩ := (h.placed l hl).slice
    obtain ⟨rfl, hplain⟩ := htext content hcontent
    exact ⟨hpiece, hplain⟩
  bracketed := h.bracketed
  accounted p hp := h.accounted (Nat.zero_le p) hp

/-- No cut is made inside a character, and the tokens that are found lose nothing of the source. -/
theorem lexemes_lossless (source : List Char) :
    Bytewise.lex source = some (lexemes source) ∧
      ∀ ls, lexemes source = .ok ls → Lossless source ls := by
  refine ⟨Bytewise.lex_eq source, fun ls h => ?_⟩
  have hlaid : Laid [] source ls := laid_of_lexemesFrom h
  exact hlaid.lossless

end Syntax

end Stencil
