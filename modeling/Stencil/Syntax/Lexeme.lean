import Stencil.Syntax.Scan

/-!
# The tokens of a source

`lexemes` turns a source into tokens with spans: it scans the parts of the source and splits the
content of each tag into words, numerals, quoted strings and marks, skipping blanks.

* `nextToken_append`: a token is cut off the front of the characters, and is never empty.
-/

namespace Stencil.Syntax

/-- The blanks between the tokens of a tag. -/
def isSpace (c : Char) : Bool := c == ' ' || c == '\t' || c == '\n' || c == '\r'

/-- Whether a word can start with a character. -/
def startsWord (c : Char) : Bool := c.isAlpha || c == '_'

/-- Whether a word can go on with a character. -/
def continuesWord (c : Char) : Bool := c.isAlphanum || c == '_'

/-- Whether a character opens a quoted string. -/
def isQuote (c : Char) : Bool := c == '"' || c == '\''

/-- The character that a backslash and another character stand for (`unescape`). -/
def unescape (c : Char) : Char :=
  if c = 'n' then '\n' else if c = 't' then '\t' else c

/-- A quoted string that has been cut off, after its opening quote: the characters it took, its
    value and the rest; or the characters before the place where it goes wrong. -/
inductive QuotedRun where
  | closed (taken : List Char) (value : List Char) (rest : List Char)
  | broken (taken : List Char)
deriving DecidableEq, Repr

namespace QuotedRun

/-- Puts characters in front of a run. -/
def prepend (cs : List Char) (value : List Char) : QuotedRun → QuotedRun
  | .closed taken v rest => .closed (cs ++ taken) (value ++ v) rest
  | .broken taken => .broken (cs ++ taken)

end QuotedRun

/-- Reads a quoted string after its opening quote `q`. A backslash takes the next character with
    it, unless that is a line feed. -/
def quotedRun (q : Char) : List Char → QuotedRun
  | [] => .broken []
  | c :: rest =>
    if c = q then .closed [c] [] rest
    else if c = '\\' then
      match rest with
      | [] => .broken []
      | d :: rest =>
        if d = '\n' then .broken []
        else (quotedRun q rest).prepend [c, d] [unescape d]
    else (quotedRun q rest).prepend [c] [c]

/-- The value of a run of decimal digits. -/
def digitsValue (digits : List Char) : Nat :=
  digits.foldl (fun n d => n * 10 + (d.toNat - 48)) 0

/-- Splits off the digits after a point; without a point and a digit after it there are none. -/
def splitFraction (cs : List Char) : List Char × List Char :=
  match cs with
  | '.' :: d :: rest =>
    if d.isDigit then (d :: rest.takeWhile Char.isDigit, rest.dropWhile Char.isDigit) else ([], cs)
  | _ => ([], cs)

/-- The number of a numeral with these digits before and after the point. -/
def numeral (whole fraction : List Char) : Option Double :=
  Double.ofDecimal false (digitsValue (whole ++ fraction)) (-(fraction.length : Int))

/-- What stands at the front of the code of a tag: a token or a slice that is none. Both come with
    the characters they took; after a token the rest goes on. -/
inductive Scanned where
  | token (token : Token) (consumed rest : List Char)
  | refused (consumed : List Char)
deriving DecidableEq, Repr

/-- The token at the front of some characters that start with neither a blank nor their end. -/
def nextToken (c : Char) (cs : List Char) : Scanned :=
  if startsWord c then
    let word := c :: cs.takeWhile continuesWord
    .token (Token.ofWord (String.ofList word)) word (cs.dropWhile continuesWord)
  else if c.isDigit then
    let whole := c :: cs.takeWhile Char.isDigit
    let after := cs.dropWhile Char.isDigit
    match splitFraction after with
    | ([], rest) => .token (.number (numeral whole [])) whole rest
    | (d :: ds, rest) =>
      .token (.number (numeral whole (d :: ds))) (whole ++ '.' :: d :: ds) rest
  else if isQuote c then
    match quotedRun c cs with
    | .closed taken value rest => .token (.string (String.ofList value)) (c :: taken) rest
    | .broken taken => .refused (c :: taken)
  else match Mark.ofChar? c with
    | some m => .token (.mark m) [c] cs
    | none => .refused [c]

/-! ## A token is cut off the front -/

theorem quotedRun_append {q : Char} {cs taken value rest : List Char}
    (h : quotedRun q cs = .closed taken value rest) : cs = taken ++ rest := by
  fun_induction quotedRun q cs generalizing taken value with
  | case1 => simp at h
  | case2 => simp at h; obtain ⟨rfl, rfl, rfl⟩ := h; simp_all
  | case3 => simp at h
  | case4 => simp at h
  | case5 d r _ _ ih =>
    cases hr : quotedRun q r with
    | closed t v x =>
      rw [hr] at h
      simp only [QuotedRun.prepend, QuotedRun.closed.injEq] at h
      obtain ⟨rfl, rfl, rfl⟩ := h
      simp [ih hr]
    | broken t => rw [hr] at h; simp [QuotedRun.prepend] at h
  | case6 c r _ _ ih =>
    cases hr : quotedRun q r with
    | closed t v x =>
      rw [hr] at h
      simp only [QuotedRun.prepend, QuotedRun.closed.injEq] at h
      obtain ⟨rfl, rfl, rfl⟩ := h
      simp [ih hr]
    | broken t => rw [hr] at h; simp [QuotedRun.prepend] at h

theorem splitFraction_append {cs rest : List Char} (h : splitFraction cs = ([], rest)) :
    cs = rest := by
  unfold splitFraction at h
  split at h
  · split at h <;> simp_all
  · simp_all

theorem splitFraction_cons_append {cs ds rest : List Char} {d : Char}
    (h : splitFraction cs = (d :: ds, rest)) : cs = '.' :: d :: ds ++ rest := by
  unfold splitFraction at h
  split at h
  · split at h
    · simp only [Prod.mk.injEq, List.cons.injEq] at h
      obtain ⟨⟨rfl, rfl⟩, rfl⟩ := h
      simp
    · simp at h
  · simp at h

/-- A token takes its characters, at least one of them, off the front. -/
theorem nextToken_append {c : Char} {cs consumed rest : List Char} {t : Token}
    (h : nextToken c cs = .token t consumed rest) :
    ∃ tail, consumed = c :: tail ∧ cs = tail ++ rest := by
  unfold nextToken at h
  split at h
  · simp only [Scanned.token.injEq] at h
    obtain ⟨-, rfl, rfl⟩ := h
    exact ⟨_, rfl, by simp⟩
  split at h
  · dsimp only at h
    have hdigits := List.takeWhile_append_dropWhile (p := Char.isDigit) (l := cs)
    split at h <;> (rename_i hf; simp only [Scanned.token.injEq] at h; obtain ⟨-, rfl, rfl⟩ := h)
    · exact ⟨_, rfl, by rw [← splitFraction_append hf, hdigits]⟩
    · refine ⟨_ ++ _, rfl, ?_⟩
      rw [List.append_assoc, ← splitFraction_cons_append hf, hdigits]
  split at h
  · split at h
    · rename_i hq
      simp only [Scanned.token.injEq] at h
      obtain ⟨-, rfl, rfl⟩ := h
      exact ⟨_, rfl, quotedRun_append hq⟩
    · simp at h
  split at h
  · simp only [Scanned.token.injEq] at h
    obtain ⟨-, rfl, rfl⟩ := h
    exact ⟨[], rfl, by simp⟩
  · simp at h

/-! ## Tokens with spans -/

/-- The tokens of the code of a tag whose first character has the given byte offset (`lex_code`). -/
def codeLexemes (start : Nat) (cs : List Char) : Except Fault (List Lexeme) :=
  match cs with
  | [] => .ok []
  | c :: rest =>
    if isSpace c then codeLexemes (start + c.utf8Size) rest
    else
      match _h : nextToken c rest with
      | .refused consumed =>
        .error ⟨⟨start, start + Text.utf8Length consumed⟩,
          .unexpectedText (String.ofList consumed), []⟩
      | .token t consumed rest =>
        let stop := start + Text.utf8Length consumed
        (codeLexemes stop rest).map (⟨t, ⟨start, stop⟩⟩ :: ·)
termination_by cs.length
decreasing_by
  · simp
  · obtain ⟨tail, -, hrest⟩ := nextToken_append _h
    rw [hrest]
    simp only [List.length_append, List.length_cons]
    omega

/-- The tokens of one part. -/
def Part.lexemes : Part → Except Fault (List Lexeme)
  | .text start content =>
    .ok [⟨.text (String.ofList content), ⟨start, start + Text.utf8Length content⟩⟩]
  | .comment _ _ => .ok []
  | .code start isPrint content => do
    let first := start + 2
    let last := first + Text.utf8Length content
    let inner ← codeLexemes first content
    let (opening, closing) := if isPrint then (Token.printOpen, Token.printClose)
      else (Token.tagOpen, Token.tagClose)
    pure (⟨opening, ⟨start, first⟩⟩ :: inner ++ [⟨closing, ⟨last, last + 2⟩⟩])
  | .unclosed start stop kind => .error ⟨⟨start, stop⟩, .unclosed kind, []⟩

/-- The tokens of several parts, up to the first fault. -/
def lexemesOf : List Part → Except Fault (List Lexeme)
  | [] => .ok []
  | part :: rest => do
    let first ← part.lexemes
    let others ← lexemesOf rest
    pure (first ++ others)

/-- The tokens of a source (`lex`). -/
def lexemes (source : List Char) : Except Fault (List Lexeme) := lexemesOf (scan source)

end Stencil.Syntax
