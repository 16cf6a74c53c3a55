import Mathlib.Data.List.Chain
import Stencil.Proofs.Spellings

/-!
# Writing a source

A source is written segment by segment: texts, comments, and tags with their tokens. What is
written is read again as it was, with every token at the place where it was written.

A tag ends where it was meant to end because its braces are balanced, and its tokens stay apart
because there is a blank between any two that would make one.

Results:
* `lexemesFrom_writing`: what is written is read again, from any offset on.
* `lexemes_writing`: what is written is read again.
-/

namespace Stencil.Syntax

/-! ## Segments -/

/-- A token as it is written: after some blanks, with some characters. -/
structure Written where
  blanks : List Char
  token : Token
  spelling : List Char

/-- A text, a comment, or a tag with its tokens and the blanks after them. -/
inductive Segment where
  | text (content : List Char)
  | comment (content : List Char)
  | tag (isPrint : Bool) (code : List Written) (blanks : List Char)

/-- The characters of some tokens and of the blanks after them. -/
def writeCode (code : List Written) (blanks : List Char) : List Char :=
  code.flatMap (fun w => w.blanks ++ w.spelling) ++ blanks

/-- The characters of a segment. -/
def Segment.write : Segment → List Char
  | .text content => content
  | .comment content => Delimiter.comment.enclose content
  | .tag isPrint code blanks => (tagDelimiter isPrint).enclose (writeCode code blanks)

/-- The characters of some segments. -/
def write (segments : List Segment) : List Char := segments.flatMap Segment.write

/-- The tokens of a tag at the places where they are written, from an offset on. -/
def placedCode (start : Nat) : List Written → List Lexeme
  | [] => []
  | w :: rest =>
    let first := start + Text.utf8Length w.blanks
    let last := first + Text.utf8Length w.spelling
    ⟨w.token, ⟨first, last⟩⟩ :: placedCode last rest

/-- The tokens of a segment at the places where they are written. -/
def Segment.placed (start : Nat) : Segment → List Lexeme
  | .text content =>
    [⟨.text (String.ofList content), ⟨start, start + Text.utf8Length content⟩⟩]
  | .comment _ => []
  | .tag isPrint code blanks =>
    let last := start + 2 + Text.utf8Length (writeCode code blanks)
    ⟨openingToken isPrint, ⟨start, start + 2⟩⟩ :: placedCode (start + 2) code ++
      [⟨closingToken isPrint, ⟨last, last + 2⟩⟩]

/-- The tokens of some segments at the places where they are written. -/
def placed (start : Nat) : List Segment → List Lexeme
  | [] => []
  | s :: rest => s.placed start ++ placed (start + Text.utf8Length s.write) rest

/-! ## What can be written -/

/-- Some blanks. -/
def Blank (cs : List Char) : Prop := ∀ c ∈ cs, isSpace c = true

instance (cs : List Char) : Decidable (Blank cs) := List.decidableBAll _ _

/-- Two tokens that need a blank between them: words and numerals, and a numeral before a point. -/
def Touching (a b : Token) : Prop := (Wordlike a ∧ Wordlike b) ∨ (Numeric a ∧ b = .mark .dot)

/-- A token can be written after another one. -/
def Follows (a b : Written) : Prop := b.blanks = [] → ¬ Touching a.token b.token

/-- All braces that are opened are closed again, and no others are. -/
inductive Balanced : Nat → List Token → Prop
  | nil : Balanced 0 []
  | cons {depth after : Nat} {t : Token} {ts : List Token} : Nests depth t after →
      Balanced after ts → Balanced depth (t :: ts)

/-- The tokens of a tag can be written. -/
structure WritableCode (code : List Written) : Prop where
  blanks : ∀ w ∈ code, Blank w.blanks
  spells : ∀ w ∈ code, Spells w.token w.spelling
  apart : code.IsChain Follows
  balanced : Balanced 0 (code.map (·.token))

/-- A segment can be written. -/
def Segment.Writable : Segment → Prop
  | .text content => content ≠ [] ∧ Plain content
  | .comment content => ¬ ['#', '\x7d'] <:+: content
  | .tag _ code blanks => WritableCode code ∧ Blank blanks

/-- A segment can be followed by another one: a text by a comment or a tag, if it does not end with
    a brace. -/
def Segment.Before : Segment → Segment → Prop
  | .text _, .text _ => False
  | .text content, _ => content.getLast? ≠ some '\x7b'
  | _, _ => True

/-- Segments that make up a source. -/
structure Writable (segments : List Segment) : Prop where
  each : ∀ s ∈ segments, s.Writable
  apart : segments.IsChain Segment.Before

/-! ## Reading the code of a tag -/

theorem codeLexemes_blanks {cs : List Char} (hcs : Blank cs) (start : Nat) (rest : List Char) :
    codeLexemes start (cs ++ rest) = codeLexemes (start + Text.utf8Length cs) rest := by
  induction cs generalizing start with
  | nil => rfl
  | cons c cs ih =>
    have htail : Blank cs := fun d hd => hcs d (List.mem_cons_of_mem c hd)
    rw [List.cons_append, codeLexemes, if_pos (hcs c List.mem_cons_self), ih htail,
      Text.utf8Length_cons, Nat.add_assoc]

theorem codeLexemes_token {start : Nat} {t : Token} {cs rest : List Char} (h : Spells t cs)
    (hends : EndsBefore t rest) :
    codeLexemes start (cs ++ rest) =
      (codeLexemes (start + Text.utf8Length cs) rest).map
        (⟨t, ⟨start, start + Text.utf8Length cs⟩⟩ :: ·) := by
  obtain ⟨c, tail, hcs, hspace, hnext⟩ := h.nextToken hends
  rw [hcs, List.cons_append, codeLexemes, if_neg (by rw [hspace]; exact Bool.false_ne_true)]
  split
  · rename_i hrefused
    rw [hnext] at hrefused
    cases hrefused
  · rename_i htoken
    rw [hnext] at htoken
    cases htoken
    rw [hcs]

theorem numeric_wordlike {t : Token} (h : Numeric t) : Wordlike t := by
  cases t <;> first | exact trivial | exact h.elim

theorem endsBefore_nil (t : Token) : EndsBefore t [] := ⟨fun _ _ hc => (nomatch hc), nofun⟩

theorem endsBefore_blank (t : Token) {c : Char} (hc : isSpace c = true) (rest : List Char) :
    EndsBefore t (c :: rest) := by
  have hends : continuesWord c = false ∧ c ≠ '.' := by
    obtain rfl | rfl | rfl | rfl := isSpace_iff.mp hc <;> decide
  refine ⟨fun _ d hd => ?_, fun _ hd => hends.2 (Option.some.inj hd)⟩
  cases hd
  exact hends.1

/-- What follows without a blank does not make a token longer, if the two do not touch. -/
theorem endsBefore_spelling {a b : Token} {cs : List Char} (h : Spells b cs)
    (hapart : ¬ Touching a b) (rest : List Char) : EndsBefore a (cs ++ rest) := by
  have hhead (hword : Wordlike a) : ∃ c tail, cs = c :: tail ∧ continuesWord c = false ∧
      (Numeric a → c ≠ '.') := by
    have hb : ¬ Wordlike b := fun hb => hapart (.inl ⟨hword, hb⟩)
    cases h with
    | mark m =>
      refine ⟨m.char, [], rfl, by cases m <;> rfl, fun hnumeric hdot => ?_⟩
      have hm : m = .dot := by cases m <;> first | rfl | cases hdot
      exact hapart (.inr ⟨hnumeric, by rw [hm]⟩)
    | @string q value hq =>
      refine ⟨q, _, rfl, ?_, fun _ => ?_⟩
      · obtain rfl | rfl := isQuote_iff.mp hq <;> rfl
      · rintro rfl
        cases hq
    | _ => exact absurd trivial hb
  refine ⟨fun hword c hc => ?_, fun hnumeric hdot => ?_⟩
  · obtain ⟨d, tail, rfl, hd, -⟩ := hhead hword
    cases hc
    exact hd
  · obtain ⟨d, tail, rfl, -, hd⟩ := hhead (numeric_wordlike hnumeric)
    exact hd hnumeric (Option.some.inj hdot)

theorem writeCode_cons (w : Written) (code : List Written) (blanks : List Char) :
    writeCode (w :: code) blanks = w.blanks ++ (w.spelling ++ writeCode code blanks) := by
  rw [writeCode, List.flatMap_cons, List.append_assoc, List.append_assoc]
  rfl

theorem writeCode_nil (blanks : List Char) : writeCode [] blanks = blanks := rfl

namespace WritableCode

variable {w : Written} {code : List Written}

/-- What is written after a token does not make it longer. -/
theorem endsBefore (hblanks : ∀ v ∈ w :: code, Blank v.blanks)
    (hspells : ∀ v ∈ w :: code, Spells v.token v.spelling)
    (hapart : (w :: code).IsChain Follows) {blanks : List Char} (hend : Blank blanks) :
    EndsBefore w.token (writeCode code blanks) := by
  cases code with
  | nil =>
    rw [writeCode_nil]
    cases blanks with
    | nil => exact endsBefore_nil w.token
    | cons c blanks => exact endsBefore_blank w.token (hend c List.mem_cons_self) blanks
  | cons v code =>
    have hv : v ∈ w :: v :: code := List.mem_cons_of_mem w List.mem_cons_self
    rw [writeCode_cons]
    cases hb : v.blanks with
    | nil =>
      have hfollows : Follows w v := (List.isChain_cons_cons.mp hapart).1
      exact endsBefore_spelling (hspells v hv) (hfollows hb) _
    | cons c bs =>
      have hc : isSpace c = true := hblanks v hv c (by rw [hb]; exact List.mem_cons_self)
      exact endsBefore_blank w.token hc _

/-- The code of a tag is read again. -/
theorem codeLexemes_writeCode (hblanks : ∀ v ∈ code, Blank v.blanks)
    (hspells : ∀ v ∈ code, Spells v.token v.spelling) (hapart : code.IsChain Follows)
    {blanks : List Char} (hend : Blank blanks) (start : Nat) :
    codeLexemes start (writeCode code blanks) = .ok (placedCode start code) := by
  induction code generalizing start with
  | nil =>
    have hread := codeLexemes_blanks hend start []
    rw [List.append_nil] at hread
    rw [writeCode_nil, hread, codeLexemes, placedCode]
  | cons w code ih =>
    have hrest := ih (fun v hv => hblanks v (List.mem_cons_of_mem w hv))
      (fun v hv => hspells v (List.mem_cons_of_mem w hv)) hapart.tail
    have hends := endsBefore hblanks hspells hapart hend
    rw [writeCode_cons, codeLexemes_blanks (hblanks w List.mem_cons_self),
      codeLexemes_token (hspells w List.mem_cons_self) hends, hrest]
    rfl

end WritableCode

/-! ## Where a part ends -/

theorem inert_of_isSpace {c : Char} (h : isSpace c = true) : Inert c := by
  obtain rfl | rfl | rfl | rfl := isSpace_iff.mp h <;> decide

/-- The search for the end of a tag goes past its code. -/
theorem skips_writeCode {code : List Written} (hblanks : ∀ v ∈ code, Blank v.blanks)
    (hspells : ∀ v ∈ code, Spells v.token v.spelling) {depth : Nat}
    (hbalanced : Balanced depth (code.map (·.token))) {blanks : List Char} (hend : Blank blanks)
    (isPrint : Bool) :
    Skips (tagDelimiter isPrint).closing depth 0 (writeCode code blanks) := by
  induction code generalizing depth with
  | nil =>
    cases hbalanced
    exact skips_of_inert (fun c hc => inert_of_isSpace (hend c hc)) 0
  | cons w code ih =>
    cases hbalanced with
    | cons hnests hrest =>
      have hw := hblanks w List.mem_cons_self
      have hcode := ih (fun v hv => hblanks v (List.mem_cons_of_mem w hv))
        (fun v hv => hspells v (List.mem_cons_of_mem w hv)) hrest
      rw [writeCode_cons]
      refine (skips_of_inert (fun c hc => inert_of_isSpace (hw c hc)) depth).append ?_
      exact ((hspells w List.mem_cons_self).skips hnests isPrint).append hcode

theorem contentIn_writeCode {code : List Written} (h : WritableCode code) {blanks : List Char}
    (hend : Blank blanks) (isPrint : Bool) (rest : List Char) :
    (tagDelimiter isPrint).contentIn
        (writeCode code blanks ++ (tagDelimiter isPrint).closing :: '\x7d' :: rest) =
      some (writeCode code blanks, rest) := by
  have hskips := skips_writeCode h.blanks h.spells h.balanced hend isPrint
  have hcontent : (tagDelimiter isPrint).contentIn =
      closingIn (tagDelimiter isPrint).closing none 0 := by
    cases isPrint <;> rfl
  have hclose : closingIn (tagDelimiter isPrint).closing none 0
      ((tagDelimiter isPrint).closing :: '\x7d' :: rest) = some ([], rest) := by
    rw [closingIn_code]
    cases isPrint <;> rfl
  rw [hcontent, hskips, hclose, Option.map_some, List.append_nil]

theorem commentEnd_content {content : List Char} (h : ¬ ['#', '\x7d'] <:+: content)
    (rest : List Char) : commentEnd (content ++ '#' :: '\x7d' :: rest) = some (content, rest) := by
  induction content with
  | nil => rfl
  | cons c content ih =>
    rw [List.infix_cons_iff, not_or] at h
    have hne : ∀ tail, c = '#' → content ++ '#' :: '\x7d' :: rest = '\x7d' :: tail → False := by
      rintro tail rfl htail
      cases content with
      | nil => cases htail
      | cons d content =>
        obtain rfl : d = '\x7d' := (List.cons.inj htail).1
        exact h.1 ⟨content, rfl⟩
    rw [List.cons_append, commentEnd.eq_2 _ _ hne, ih h.2, Option.map_some]

/-! ## Reading a source -/

/-- A comment or a tag is found to end where it was meant to, and it has the tokens that it was
    written with. -/
theorem enclosed_of_writable {s : Segment} (h : s.Writable) (htext : ∀ content, s ≠ .text content) :
    ∃ (kind : Delimiter) (content : List Char), s.write = kind.enclose content ∧
      (∀ rest, kind.contentIn (content ++ kind.closing :: '\x7d' :: rest) =
        some (content, rest)) ∧
      ∀ start, (kind.part start content).lexemes = .ok (s.placed start) := by
  cases s with
  | text content => exact absurd rfl (htext content)
  | comment content => exact ⟨.comment, content, rfl, commentEnd_content h, fun _ => rfl⟩
  | tag isPrint code blanks =>
    refine ⟨tagDelimiter isPrint, writeCode code blanks, rfl, contentIn_writeCode h.1 h.2 isPrint,
      fun start => ?_⟩
    have hcode := WritableCode.codeLexemes_writeCode h.1.blanks h.1.spells h.1.apart h.2 (start + 2)
    have hpart : (tagDelimiter isPrint).part start (writeCode code blanks) =
        .code start isPrint (writeCode code blanks) := by
      cases isPrint <;> rfl
    rw [hpart, lexemes_code, hcode]
    rfl

/-- The text before a source goes on with the text that the source starts with, if it does not end
    in a brace. -/
theorem openingIn_append_plain {text : List Char} (htext : Plain text)
    (hlast : text.getLast? ≠ some '\x7b') (rest : List Char) :
    openingIn (text ++ rest) = (text ++ (openingIn rest).1, (openingIn rest).2) := by
  induction text with
  | nil => rfl
  | cons c text ih =>
    obtain ⟨hc, hplain⟩ := plain_cons.mp htext
    cases text with
    | nil =>
      have hbrace : c ≠ '\x7b' := fun h => hlast (congrArg some h)
      rw [List.singleton_append, openingIn_cons fun _ h => hbrace h.1]
      rfl
    | cons d text =>
      rw [List.getLast?_cons_cons] at hlast
      have hnext : ∀ other : Delimiter,
          ¬ (c = '\x7b' ∧ (d :: text ++ rest).head? = some other.inner) :=
        fun other h => hc other ⟨h.1, h.2⟩
      rw [List.cons_append, openingIn_cons hnext, ih hplain hlast]
      rfl

/-- The text before a delimiter that opens a part. -/
theorem openingIn_text {text : List Char} (htext : Plain text) (hlast : text.getLast? ≠ some '\x7b')
    (kind : Delimiter) (body : List Char) :
    openingIn (text ++ '\x7b' :: kind.inner :: body) = (text, some (kind, body)) := by
  rw [openingIn_append_plain htext hlast, openingIn_delimiter, List.append_nil]

theorem openingIn_plain_end {text : List Char} (htext : Plain text) :
    openingIn text = (text, none) := by
  induction text with
  | nil => rfl
  | cons c text ih =>
    obtain ⟨hc, hplain⟩ := plain_cons.mp htext
    rw [openingIn_cons hc, ih hplain]

/-- A comment or a tag after some text. -/
theorem lexemesFrom_enclosed {start : Nat} {text : List Char} (htext : Plain text)
    (hlast : text.getLast? ≠ some '\x7b') {s : Segment} (h : s.Writable)
    (hs : ∀ content, s ≠ .text content) (rest : List Char) :
    lexemesFrom start (text ++ (s.write ++ rest)) =
      (lexemesFrom (start + Text.utf8Length text + Text.utf8Length s.write) rest).map fun others =>
        textLexemes start text ++ s.placed (start + Text.utf8Length text) ++ others := by
  obtain ⟨kind, content, hwrite, hcontent, hpart⟩ := enclosed_of_writable h hs
  rw [hwrite, Delimiter.enclose_append, lexemesFrom_part (openingIn_text htext hlast kind _)
    (hcontent rest), hpart, Delimiter.utf8Length_enclose, ← Nat.add_assoc, ← Nat.add_assoc]
  cases lexemesFrom (start + Text.utf8Length text + 2 + Text.utf8Length content + 2) rest <;> rfl

theorem Writable.tail {s : Segment} {rest : List Segment} (h : Writable (s :: rest)) :
    Writable rest :=
  ⟨fun t ht => h.each t (List.mem_cons_of_mem s ht), h.apart.tail⟩

theorem write_cons (s : Segment) (rest : List Segment) :
    write (s :: rest) = s.write ++ write rest := List.flatMap_cons

theorem placed_cons (start : Nat) (s : Segment) (rest : List Segment) :
    placed start (s :: rest) =
      s.placed start ++ placed (start + Text.utf8Length s.write) rest := rfl

theorem textLexemes_of_ne_nil {content : List Char} (h : content ≠ []) (start : Nat) :
    textLexemes start content = (Segment.text content).placed start := by
  rw [textLexemes, if_neg (by simpa using h)]
  rfl

/-- A comment or a tag that no text stands before, and what follows it. -/
theorem lexemesFrom_cons {s : Segment} {rest : List Segment} (h : Writable (s :: rest))
    (hs : ∀ content, s ≠ .text content) {start : Nat}
    (hrest : lexemesFrom (start + Text.utf8Length s.write) (write rest) =
      .ok (placed (start + Text.utf8Length s.write) rest)) :
    lexemesFrom start (write (s :: rest)) = .ok (placed start (s :: rest)) := by
  have hread : lexemesFrom start ([] ++ (s.write ++ write rest)) = _ :=
    lexemesFrom_enclosed .nil nofun (h.each s List.mem_cons_self) hs (write rest)
  rw [List.nil_append, Text.utf8Length_nil, Nat.add_zero, hrest] at hread
  rw [write_cons, hread, placed_cons]
  rfl

/-- What is written is read again, from any offset on. A text is read with what follows it, which
    is a comment or a tag. -/
theorem lexemesFrom_writing : ∀ {segments : List Segment}, Writable segments → ∀ start : Nat,
    lexemesFrom start (write segments) = .ok (placed start segments)
  | [], _, start => lexemesFrom_nil start
  | [.text content], h, start => by
    obtain ⟨hcontent, hplain⟩ := h.each _ List.mem_cons_self
    have hwrite : write [.text content] = content := List.append_nil content
    rw [hwrite, lexemesFrom_text (openingIn_plain_end hplain), textLexemes_of_ne_nil hcontent,
      placed_cons, placed, List.append_nil]
  | .text content :: s :: rest, h, start => by
    obtain ⟨hcontent, hplain⟩ := h.each _ List.mem_cons_self
    have hbefore : Segment.Before (.text content) s := (List.isChain_cons_cons.mp h.apart).1
    have hs : ∀ other, s ≠ .text other := by
      rintro other rfl
      exact hbefore
    have hlast : content.getLast? ≠ some '\x7b' := by
      cases s with
      | text other => exact absurd rfl (hs other)
      | comment other => exact hbefore
      | tag isPrint code blanks => exact hbefore
    have hrest := lexemesFrom_writing h.tail.tail
      (start + Text.utf8Length content + Text.utf8Length s.write)
    rw [write_cons, write_cons, placed_cons, placed_cons]
    show lexemesFrom start (content ++ (s.write ++ write rest)) = _
    rw [lexemesFrom_enclosed hplain hlast (h.tail.each s List.mem_cons_self) hs, hrest,
      textLexemes_of_ne_nil hcontent]
    exact congrArg Except.ok (List.append_assoc _ _ _)
  | .comment content :: rest, h, start => lexemesFrom_cons h nofun (lexemesFrom_writing h.tail _)
  | .tag isPrint code blanks :: rest, h, start =>
    lexemesFrom_cons h nofun (lexemesFrom_writing h.tail _)

/-- What is written is read again: the tokens are the ones that were written, each of them at the
    place where it was written. -/
theorem lexemes_writing {segments : List Segment} (h : Writable segments) :
    lexemes (write segments) = .ok (placed 0 segments) :=
  lexemesFrom_writing h 0

/-- A text, a print tag with a mapping, a comment, the start of a block and a brace. -/
def page : List Segment :=
  [.text "a\x7bé ".toList,
    .tag true
      [⟨[' '], .mark .braceOpen, ['\x7b']⟩,
        ⟨[], .string "\x7d\x7d'", '\'' :: (escape '\'' "\x7d\x7d'".toList ++ ['\''])⟩,
        ⟨[], .mark .colon, [':']⟩,
        ⟨['\n'], .number (numeral ['1'] []), ['1']⟩,
        ⟨[], .mark .braceClose, ['\x7d']⟩] [],
    .comment " x #".toList,
    .tag false
      [⟨[], .keyword .block, Keyword.block.spelling.toList⟩, ⟨['\t'], .ident "b", "b".toList⟩]
      [' '],
    .text "\x7b".toList]

theorem page_writable : Writable page where
  each := by
    intro s hs
    simp only [page, List.mem_cons, List.not_mem_nil, or_false] at hs
    obtain rfl | rfl | rfl | rfl | rfl := hs
    · refine ⟨by decide, fun kind => ?_⟩
      cases kind <;> decide
    · refine ⟨⟨by decide, ?_, ?_, ?_⟩, by decide⟩
      · simp only [List.forall_mem_cons]
        have hdigits : IsDigits ['1'] := ⟨nofun, List.all_eq_true.mp rfl⟩
        exact ⟨.mark _, .string _ rfl, .mark _, .whole hdigits, .mark _, nofun⟩
      · simp [Follows, Touching, Wordlike, Numeric]
      · exact .cons (.opened 0) (.cons (.other 1 nofun nofun) (.cons (.other 1 nofun nofun)
          (.cons (.other 1 nofun nofun) (.cons (.closed 0) .nil))))
    · show ¬ _ <:+: _
      decide
    · refine ⟨⟨by decide, ?_, ?_, ?_⟩, by decide⟩
      · have hfree : ¬ Reserved "b" := by
          rintro (h | ⟨k, h⟩)
          · revert h
            decide
          · cases k <;> revert h <;> decide
        simp only [List.forall_mem_cons]
        exact ⟨.keyword _, .ident ⟨rfl, List.all_eq_true.mp rfl⟩ hfree, nofun⟩
      · simp [Follows]
      · exact .cons (.other 0 nofun nofun) (.cons (.other 0 nofun nofun) .nil)
    · refine ⟨by decide, fun kind => ?_⟩
      cases kind <;> decide
  apart := by
    simp [page, Segment.Before]

/-- The page as it is written, and what is read of it. -/
theorem lexemes_writing_page :
    write page = ("a\x7bé \x7b\x7b \x7b'\x7d\x7d\\'':\n1\x7d\x7d\x7d" ++
      "\x7b# x ##\x7d\x7b%block\tb %\x7d\x7b").toList ∧
    Writable page ∧ lexemes (write page) = .ok (placed 0 page) :=
  ⟨by decide, page_writable, lexemes_writing page_writable⟩

end Stencil.Syntax
