import Stencil.Proofs.Parts

/-!
# Quoted strings

A quoted string is a row of pieces between two quotation marks: characters, and backslashes each of
which has a character after it. The search for the end of a tag goes past every piece. So does the
reading of the string, which takes the character that a piece stands for; but a backslash before a
line feed ends it.

Results:
* `Literal.closingIn_inner`: the search for the end of a tag, in a string.
* `Literal.quotedRun_inner`, `Literal.quotedRun_lineFeed`: reading a string.
-/

namespace Stencil.Syntax

/-! ## Character by character -/

theorem isQuote_iff {q : Char} : isQuote q = true ↔ q = '"' ∨ q = '\'' := by
  rw [isQuote, Bool.or_eq_true, beq_iff_eq, beq_iff_eq]

theorem quotedRun_quote (q : Char) (rest : List Char) :
    quotedRun q (q :: rest) = .closed [q] [] rest := by
  rw [quotedRun.eq_def]
  exact if_pos rfl

theorem quotedRun_char {q c : Char} (hq : c ≠ q) (hc : c ≠ '\\') (rest : List Char) :
    quotedRun q (c :: rest) = (quotedRun q rest).prepend [c] [c] := by
  rw [quotedRun.eq_def]
  simp only [if_neg hq, if_neg hc]

theorem quotedRun_pair {q d : Char} (hq : '\\' ≠ q) (hd : d ≠ '\n') (rest : List Char) :
    quotedRun q ('\\' :: d :: rest) = (quotedRun q rest).prepend ['\\', d] [unescape d] := by
  rw [quotedRun.eq_def]
  simp only [if_neg hq, if_neg hd, if_true]

theorem closingIn_quotedPair (close q : Char) (depth : Nat) (c : Char) (rest : List Char) :
    closingIn close (some q) depth ('\\' :: c :: rest) =
      (closingIn close (some q) depth rest).map fun f => ('\\' :: c :: f.1, f.2) := by
  rw [closingIn.eq_def]
  exact if_pos rfl

theorem closingIn_quotedChar (close q : Char) (depth : Nat) {c : Char} (hc : c ≠ '\\')
    (rest : List Char) :
    closingIn close (some q) depth (c :: rest) =
      (closingIn close (if c = q then none else some q) depth rest).map fun f =>
        (c :: f.1, f.2) := by
  rw [closingIn.eq_def]
  exact if_neg hc

namespace Literal

/-! ## Pieces -/

/-- A piece of a string: a character, or a backslash with the character after it. -/
inductive Piece where
  | plain (c : Char)
  | pair (c : Char)
deriving DecidableEq, Repr

/-- The characters of a piece. -/
def Piece.write : Piece → List Char
  | .plain c => [c]
  | .pair c => ['\\', c]

/-- The character that a piece stands for. -/
def Piece.meaning : Piece → Char
  | .plain c => c
  | .pair 'n' => '\n'
  | .pair 't' => '\t'
  | .pair c => c

/-- A piece of a string between quotation marks `q`: such a mark, and a backslash, is part of a
    pair. -/
def Piece.Fits (q : Char) : Piece → Prop
  | .plain c => c ≠ q ∧ c ≠ '\\'
  | .pair _ => True

instance (q : Char) (piece : Piece) : Decidable (piece.Fits q) := by
  cases piece <;> unfold Piece.Fits <;> infer_instance

/-- The characters of some pieces. -/
def inner (pieces : List Piece) : List Char := pieces.flatMap Piece.write

/-- A string as it is written. -/
def write (q : Char) (pieces : List Piece) : List Char := q :: (inner pieces ++ [q])

variable {q : Char} {pieces : List Piece}

theorem inner_cons (piece : Piece) (pieces : List Piece) :
    inner (piece :: pieces) = piece.write ++ inner pieces := List.flatMap_cons

theorem inner_append (pieces pieces' : List Piece) :
    inner (pieces ++ pieces') = inner pieces ++ inner pieces' := List.flatMap_append

theorem backslash_ne_of_isQuote (hq : isQuote q = true) : '\\' ≠ q := by
  rintro rfl
  cases hq

theorem meaning_pair (c : Char) : (Piece.pair c).meaning = unescape c := by
  by_cases hn : c = 'n'
  · subst hn
    rfl
  by_cases ht : c = 't'
  · subst ht
    rfl
  rw [unescape, if_neg hn, if_neg ht, Piece.meaning]
  · exact hn
  · exact ht

/-- The search for the end of a tag goes past a piece of a string. -/
theorem closingIn_piece {piece : Piece} (hpiece : piece.Fits q) (close : Char) (depth : Nat)
    (rest : List Char) :
    closingIn close (some q) depth (piece.write ++ rest) =
      (closingIn close (some q) depth rest).map fun found => (piece.write ++ found.1, found.2) := by
  cases piece with
  | plain c =>
    have hskip := closingIn_quotedChar close q depth hpiece.2 rest
    rw [if_neg hpiece.1] at hskip
    exact hskip
  | pair c => exact closingIn_quotedPair close q depth c rest

theorem closingIn_inner (hpieces : ∀ piece ∈ pieces, piece.Fits q) (close : Char) (depth : Nat)
    (rest : List Char) :
    closingIn close (some q) depth (inner pieces ++ rest) =
      (closingIn close (some q) depth rest).map fun found =>
        (inner pieces ++ found.1, found.2) := by
  induction pieces with
  | nil => exact Option.map_id'.symm
  | cons piece pieces ih =>
    obtain ⟨hpiece, hrest⟩ := List.forall_mem_cons.mp hpieces
    rw [inner_cons, List.append_assoc, closingIn_piece hpiece, ih hrest, Option.map_map]
    congr 1
    funext found
    rw [Function.comp_apply, List.append_assoc]

/-! ## Reading pieces -/

/-- Reading a string takes a piece of it, unless that is a line feed with a backslash. -/
theorem quotedRun_piece (hq : isQuote q = true) {piece : Piece} (hpiece : piece.Fits q)
    (hline : piece ≠ .pair '\n') (rest : List Char) :
    quotedRun q (piece.write ++ rest) =
      (quotedRun q rest).prepend piece.write [piece.meaning] := by
  cases piece with
  | plain c => exact quotedRun_char hpiece.1 hpiece.2 rest
  | pair c =>
    have hc : c ≠ '\n' := by
      rintro rfl
      exact hline rfl
    rw [meaning_pair]
    exact quotedRun_pair (backslash_ne_of_isQuote hq) hc rest

theorem prepend_prepend (cs ds value value' : List Char) (run : QuotedRun) :
    (run.prepend ds value').prepend cs value = run.prepend (cs ++ ds) (value ++ value') := by
  cases run <;> simp [QuotedRun.prepend]

theorem quotedRun_inner (hq : isQuote q = true) (hpieces : ∀ piece ∈ pieces, piece.Fits q)
    (hline : .pair '\n' ∉ pieces) (rest : List Char) :
    quotedRun q (inner pieces ++ rest) =
      (quotedRun q rest).prepend (inner pieces) (pieces.map Piece.meaning) := by
  induction pieces with
  | nil => cases hrun : quotedRun q rest <;> simp [inner, QuotedRun.prepend, hrun]
  | cons piece pieces ih =>
    obtain ⟨hpiece, hrest⟩ := List.forall_mem_cons.mp hpieces
    obtain ⟨hne, hline⟩ := not_or.mp (mt List.mem_cons.mpr hline)
    rw [inner_cons, List.append_assoc, quotedRun_piece hq hpiece (Ne.symm hne), ih hrest hline,
      prepend_prepend]
    rfl

/-- A backslash before a line feed ends the reading of a string. -/
theorem quotedRun_lineFeed (hq : isQuote q = true) (rest : List Char) :
    quotedRun q ('\\' :: '\n' :: rest) = .broken [] := by
  rw [quotedRun.eq_def]
  simp only [if_neg (backslash_ne_of_isQuote hq), if_true]

end Literal

end Stencil.Syntax
