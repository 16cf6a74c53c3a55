import Stencil.Proofs.Writing

/-!
# String literals in a print tag

A string between quotation marks is read three times, each time with an idea of its own of what a
backslash does: the search for the end of the tag goes past it, the tokens of the tag are cut at its
end, and its value replaces the escapes. The search takes any character with the backslash before
it, and so does the value. The cut does not take a line feed: it ends there, although a line feed
that no backslash precedes is part of the string.

Specification: `Literal.value` for what the pieces of a string stand for, `Literal.printTag` for a
print tag with a string in it, `Literal.printTokens` for the three tokens it should have.

Results:
* `Literal.nextToken_written`, `Literal.nextToken_lineFeed`: what the tokens of a tag make of it.
* `Literal.lexemes_printTag`: the tokens of a print tag with a string in it.
-/

namespace Stencil.Syntax.Literal

/-! ## Specification -/

/-- What a string stands for. -/
def value (pieces : List Piece) : String := String.ofList (pieces.map Piece.meaning)

/-- A print tag with nothing but a string in it. -/
def printTag (blanks : List Char) (q : Char) (pieces : List Piece) (blanks' : List Char) :
    List Char :=
  Delimiter.print.enclose (blanks ++ (write q pieces ++ blanks'))

/-- The three tokens of such a tag, at their places. -/
def printTokens (blanks : List Char) (q : Char) (pieces : List Piece) (blanks' : List Char) :
    List Lexeme :=
  let first := 2 + Text.utf8Length blanks
  let last := first + Text.utf8Length (write q pieces)
  let stop := last + Text.utf8Length blanks'
  [⟨.printOpen, ⟨0, 2⟩⟩, ⟨.string (value pieces), ⟨first, last⟩⟩, ⟨.printClose, ⟨stop, stop + 2⟩⟩]

/-! ## The token of a string -/

variable {q : Char} {pieces : List Piece}

theorem nextToken_quote (hq : isQuote q = true) (rest : List Char) :
    nextToken q rest = match quotedRun q rest with
      | .closed taken value rest => .token (.string (String.ofList value)) (q :: taken) rest
      | .broken taken => .refused (q :: taken) := by
  have hcode : startsWord q = false ∧ q.isDigit = false := by
    obtain rfl | rfl := isQuote_iff.mp hq <;> decide
  rw [nextToken, hcode.1, hcode.2, hq]
  rfl

/-- A string is one token with what it stands for. -/
theorem nextToken_written (hq : isQuote q = true) (hpieces : ∀ piece ∈ pieces, piece.Fits q)
    (hline : .pair '\n' ∉ pieces) (rest : List Char) :
    nextToken q (inner pieces ++ q :: rest) =
      .token (.string (value pieces)) (write q pieces) rest := by
  rw [nextToken_quote hq, quotedRun_inner hq hpieces hline, quotedRun_quote]
  simp only [QuotedRun.prepend, List.append_nil]
  rfl

/-- A string is no token from a backslash and a line feed on. -/
theorem nextToken_lineFeed (hq : isQuote q = true) (hpieces : ∀ piece ∈ pieces, piece.Fits q)
    (hline : .pair '\n' ∉ pieces) (rest : List Char) :
    nextToken q (inner pieces ++ '\\' :: '\n' :: rest) = .refused (q :: inner pieces) := by
  rw [nextToken_quote hq, quotedRun_inner hq hpieces hline, quotedRun_lineFeed hq]
  simp only [QuotedRun.prepend, List.append_nil]

/-! ## A print tag -/

variable {blanks blanks' : List Char}

/-- A tag with a string in it ends where it was meant to. -/
theorem contentIn_printTag (hq : isQuote q = true) (hpieces : ∀ piece ∈ pieces, piece.Fits q)
    (hblanks : Blank blanks) (hblanks' : Blank blanks') :
    Delimiter.print.contentIn (blanks ++ (write q pieces ++ blanks') ++ ['\x7d', '\x7d']) =
      some (blanks ++ (write q pieces ++ blanks'), []) := by
  have hinert {cs : List Char} (hcs : Blank cs) : Skips (tagDelimiter true).closing 0 0 cs :=
    skips_of_inert (fun c hc => inert_of_isSpace (hcs c hc)) 0
  have hcontent : Skips '\x7d' 0 0 (blanks ++ (write q pieces ++ blanks')) :=
    (hinert hblanks).append ((skips hq hpieces _ 0).append (hinert hblanks'))
  have hclose : closingIn '\x7d' none 0 ['\x7d', '\x7d'] = some ([], []) := rfl
  show closingIn '\x7d' none 0 _ = _
  rw [hcontent, hclose, Option.map_some, List.append_nil]

/-- The tokens of such a tag are those of its code. -/
theorem lexemes_enclose {content : List Char}
    (hcontent : Delimiter.print.contentIn (content ++ ['\x7d', '\x7d']) = some (content, [])) :
    lexemes (Delimiter.print.enclose content) = (codeLexemes 2 content).map fun found =>
      ⟨.printOpen, ⟨0, 2⟩⟩ :: found ++
        [⟨.printClose, ⟨2 + Text.utf8Length content, 2 + Text.utf8Length content + 2⟩⟩] := by
  have hopening : openingIn (Delimiter.print.enclose content) =
      ([], some (.print, content ++ ['\x7d', '\x7d'])) :=
    openingIn_delimiter .print (content ++ ['\x7d', '\x7d'])
  show lexemesFrom 0 _ = _
  rw [lexemesFrom_part hopening hcontent]
  simp only [Text.utf8Length_nil, Nat.zero_add, lexemesFrom_nil, Delimiter.part, lexemes_code]
  cases codeLexemes 2 content with
  | error fault => rfl
  | ok found => exact congrArg Except.ok (List.append_nil _)

/-- The code of a tag with a string after some blanks. -/
theorem codeLexemes_string (hq : isQuote q = true) (hblanks : Blank blanks) (start : Nat)
    (rest : List Char) :
    codeLexemes start (blanks ++ q :: rest) =
      let first := start + Text.utf8Length blanks
      match nextToken q rest with
      | .refused consumed => .error ⟨⟨first, first + Text.utf8Length consumed⟩,
          .unexpectedText (String.ofList consumed), []⟩
      | .token t consumed after =>
        (codeLexemes (first + Text.utf8Length consumed) after).map
          (⟨t, ⟨first, first + Text.utf8Length consumed⟩⟩ :: ·) := by
  have hspace : isSpace q = false := by
    obtain rfl | rfl := isQuote_iff.mp hq <;> rfl
  rw [codeLexemes_blanks hblanks, codeLexemes, if_neg (by rw [hspace]; exact Bool.false_ne_true)]
  split <;> rename_i hnext <;> simp only [hnext]

/-- A print tag with a string in it ends where it was meant to, and has three tokens: its
    delimiters, and the string with its value. The exception is a string with a backslash before a
    line feed, where the text up to the first of these is no token. -/
theorem lexemes_printTag (hq : isQuote q = true) (hpieces : ∀ piece ∈ pieces, piece.Fits q)
    (hblanks : Blank blanks) (hblanks' : Blank blanks') :
    scan (printTag blanks q pieces blanks') =
        [.code 0 true (blanks ++ (write q pieces ++ blanks'))] ∧
      (.pair '\n' ∉ pieces → lexemes (printTag blanks q pieces blanks') =
        .ok (printTokens blanks q pieces blanks')) ∧
      ∀ before after, pieces = before ++ .pair '\n' :: after → .pair '\n' ∉ before →
        lexemes (printTag blanks q pieces blanks') =
          .error ⟨⟨2 + Text.utf8Length blanks,
              2 + Text.utf8Length blanks + Text.utf8Length (q :: inner before)⟩,
            .unexpectedText (String.ofList (q :: inner before)), []⟩ := by
  have hcontent := contentIn_printTag hq hpieces hblanks hblanks'
  have hwrite (rest : List Char) : write q pieces ++ rest = q :: (inner pieces ++ q :: rest) := by
    simp [write]
  refine ⟨?scanned, fun hline => ?token, ?refused⟩
  case scanned =>
    have hopening : openingIn (printTag blanks q pieces blanks') =
        ([], some (.print, blanks ++ (write q pieces ++ blanks') ++ ['\x7d', '\x7d'])) :=
      openingIn_delimiter .print _
    have hend (start : Nat) : scanFrom start [] = [] := scanFrom_text rfl
    rw [scan, scanFrom_part hopening hcontent, hend]
    rfl
  case token =>
    have hnext := nextToken_written hq hpieces hline blanks'
    have hend := codeLexemes_blanks hblanks'
      (2 + Text.utf8Length blanks + Text.utf8Length (write q pieces)) []
    rw [List.append_nil, codeLexemes] at hend
    rw [printTag, lexemes_enclose hcontent, hwrite, codeLexemes_string hq hblanks]
    simp only [hnext, hend, ← hwrite, Text.utf8Length_append, ← Nat.add_assoc]
    rfl
  case refused =>
    rintro before after rfl hline
    have hbefore : ∀ piece ∈ before, piece.Fits q :=
      fun piece hpiece => hpieces piece (List.mem_append_left _ hpiece)
    have hinner : inner (before ++ .pair '\n' :: after) ++ q :: blanks' =
        inner before ++ '\\' :: '\n' :: (inner after ++ q :: blanks') := by
      rw [inner_append, inner_cons, List.append_assoc, List.append_assoc]
      rfl
    have hnext := nextToken_lineFeed hq hbefore hline (inner after ++ q :: blanks')
    rw [printTag, lexemes_enclose hcontent, hwrite, codeLexemes_string hq hblanks, hinner]
    simp only [hnext]
    rfl

/-- `{{ "\"\n" }}`, where the backslashes are characters of the source. -/
theorem lexemes_printTag_escapes :
    lexemes (printTag [' '] '"' [.pair '"', .pair 'n'] [' ']) =
      .ok [⟨.printOpen, ⟨0, 2⟩⟩, ⟨.string "\"\n", ⟨3, 9⟩⟩, ⟨.printClose, ⟨10, 12⟩⟩] :=
  (lexemes_printTag (by decide) (by decide) (by decide) (by decide)).2.1 (by decide)

/-- A string of an `a`, a backslash, a line feed and a `b` is not read as one. -/
theorem not_lexemes_lineFeed :
    ¬ ∀ (q : Char) (pieces : List Piece), isQuote q = true → (∀ piece ∈ pieces, piece.Fits q) →
      lexemes (printTag [' '] q pieces [' ']) = .ok (printTokens [' '] q pieces [' ']) := by
  intro h
  have hread := h '"' [.plain 'a', .pair '\n', .plain 'b'] (by decide) (by decide)
  revert hread
  decide +kernel

end Stencil.Syntax.Literal
