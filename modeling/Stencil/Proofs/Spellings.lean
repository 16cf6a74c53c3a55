import Stencil.Proofs.Strings

/-!
# How tokens are written

A token of the code of a tag can be written in several ways: a string in either kind of quotation
marks, a number by any numeral for it. What is written is read again as the same token, whatever
follows, unless what follows would make a word or a numeral longer. The search for the end of a tag
goes past it, whatever it contains, and only braces change how deep the search is.

Results:
* `Spells.nextToken`: a written token is read again.
* `Spells.skips`: the search for the end of a tag goes past it.
-/

namespace Stencil.Syntax

/-! ## Spellings -/

/-- The words that are no identifiers. -/
def Reserved (word : String) : Prop :=
  word ∈ ["true", "false", "null"] ∨ ∃ k : Keyword, k.spelling = word

/-- A word: a letter or an underscore, and then letters, digits and underscores. -/
def IsWord : List Char → Prop
  | [] => False
  | c :: cs => startsWord c = true ∧ ∀ d ∈ cs, continuesWord d = true

/-- Decimal digits, at least one. -/
def IsDigits (cs : List Char) : Prop := cs ≠ [] ∧ ∀ d ∈ cs, d.isDigit = true

/-- The characters of a string between quotation marks `q`: a backslash stands before every
    backslash and before every such mark. -/
def escape (q : Char) : List Char → List Char
  | [] => []
  | c :: cs => if c = '\\' ∨ c = q then '\\' :: c :: escape q cs else c :: escape q cs

/-- A token of the code of a tag can be written with these characters. -/
inductive Spells : Token → List Char → Prop
  | keyword (k : Keyword) : Spells (.keyword k) k.spelling.toList
  | bool (value : Bool) : Spells (.bool value) (toString value).toList
  | null : Spells .null "null".toList
  | ident {name : String} : IsWord name.toList → ¬ Reserved name → Spells (.ident name) name.toList
  | mark (m : Mark) : Spells (.mark m) [m.char]
  | string {q : Char} (value : String) : isQuote q = true →
      Spells (.string value) (q :: (escape q value.toList ++ [q]))
  | whole {digits : List Char} : IsDigits digits → Spells (.number (numeral digits [])) digits
  | decimal {digits fraction : List Char} : IsDigits digits → IsDigits fraction →
      Spells (.number (numeral digits fraction)) (digits ++ '.' :: fraction)

/-- The tokens that are written as words or numerals. -/
def Wordlike : Token → Prop
  | .keyword _ | .bool _ | .null | .ident _ | .number _ => True
  | _ => False

/-- The tokens that are written as numerals. -/
def Numeric : Token → Prop
  | .number _ => True
  | _ => False

/-- What follows does not make a token longer. -/
def EndsBefore (t : Token) (rest : List Char) : Prop :=
  (Wordlike t → ∀ c ∈ rest.head?, continuesWord c = false) ∧ (Numeric t → rest.head? ≠ some '.')

/-! ## Reading what is written -/

theorem takeWhile_append_stop {p : Char → Bool} {cs rest : List Char} (hcs : ∀ c ∈ cs, p c = true)
    (hrest : ∀ c ∈ rest.head?, p c = false) :
    (cs ++ rest).takeWhile p = cs ∧ (cs ++ rest).dropWhile p = rest := by
  rw [List.takeWhile_append_of_pos hcs, List.dropWhile_append_of_pos hcs]
  cases rest with
  | nil => simp
  | cons c rest => simp [hrest c rfl]

/-- A word is read up to its end. -/
theorem nextToken_word {c : Char} {cs rest : List Char} (hword : IsWord (c :: cs))
    (hrest : ∀ d ∈ rest.head?, continuesWord d = false) :
    nextToken c (cs ++ rest) = .token (Token.ofWord (String.ofList (c :: cs))) (c :: cs) rest := by
  obtain ⟨htake, hdrop⟩ := takeWhile_append_stop hword.2 hrest
  rw [nextToken, if_pos hword.1, htake, hdrop]

theorem ofSpelling?_eq_none {word : String} (h : ¬ Reserved word) :
    Keyword.ofSpelling? word = none := by
  rw [Keyword.ofSpelling?, List.find?_eq_none]
  intro k _ hk
  exact h (.inr ⟨k, eq_of_beq hk⟩)

theorem ofWord_ident {word : String} (h : ¬ Reserved word) : Token.ofWord word = .ident word := by
  have hne {literal : String} (hmem : literal ∈ ["true", "false", "null"]) : word ≠ literal := by
    rintro rfl
    exact h (.inl hmem)
  rw [Token.ofWord, if_neg (hne (by decide)), if_neg (hne (by decide)), if_neg (hne (by decide)),
    ofSpelling?_eq_none h]

theorem ofWord_keyword (k : Keyword) : Token.ofWord k.spelling = .keyword k := by
  cases k <;> rfl

theorem keyword_isWord (k : Keyword) : IsWord k.spelling.toList := by
  cases k <;> exact ⟨rfl, List.all_eq_true.mp rfl⟩

/-- What is written as a word and is no numeral. -/
theorem Spells.isWord {t : Token} {cs : List Char} (h : Spells t cs) (hword : Wordlike t)
    (hnumeric : ¬ Numeric t) : IsWord cs ∧ Token.ofWord (String.ofList cs) = t := by
  cases h with
  | keyword k =>
    rw [String.ofList_toList]
    exact ⟨keyword_isWord k, ofWord_keyword k⟩
  | bool value => cases value <;> exact ⟨⟨rfl, List.all_eq_true.mp rfl⟩, rfl⟩
  | null => exact ⟨⟨rfl, List.all_eq_true.mp rfl⟩, rfl⟩
  | ident hname hfree =>
    rw [String.ofList_toList]
    exact ⟨hname, ofWord_ident hfree⟩
  | mark m => exact hword.elim
  | string value hq => exact hword.elim
  | whole hdigits => exact absurd trivial hnumeric
  | decimal hdigits hfraction => exact absurd trivial hnumeric

theorem not_startsWord_of_isDigit {c : Char} (h : c.isDigit = true) : startsWord c = false := by
  have hbounds : 48 ≤ c.val.toNat ∧ c.val.toNat ≤ 57 := by
    simpa [Char.isDigit, UInt32.le_iff_toNat_le] using h
  have hunderscore : c ≠ '_' := by
    rintro rfl
    exact absurd hbounds.2 (by decide)
  have hupper : c.isUpper = false := by
    rw [Bool.eq_false_iff]
    intro hupper
    have hletter : 'A'.val ≤ c.val ∧ c.val ≤ 'Z'.val := of_decide_eq_true hupper
    have hstart : 65 ≤ c.val.toNat := UInt32.le_iff_toNat_le.mp hletter.1
    omega
  have hlower : c.isLower = false := by
    rw [Bool.eq_false_iff]
    intro hlower
    have hletter : 'a'.val ≤ c.val := of_decide_eq_true (Bool.and_eq_true_iff.mp hlower).1
    have hstart : 97 ≤ c.val.toNat := UInt32.le_iff_toNat_le.mp hletter
    omega
  show (c.isUpper || c.isLower || c == '_') = false
  rw [hupper, hlower]
  exact beq_false_of_ne hunderscore

theorem not_isDigit_of_not_continuesWord {c : Char} (h : continuesWord c = false) :
    c.isDigit = false := by
  simp only [continuesWord, Char.isAlphanum, Bool.or_eq_false_iff] at h
  exact h.1.2

/-- A numeral without a point is read up to its end. -/
theorem nextToken_whole {c : Char} {cs rest : List Char} (hdigits : IsDigits (c :: cs))
    (hends : EndsBefore (.number (numeral (c :: cs) [])) rest) :
    nextToken c (cs ++ rest) = .token (.number (numeral (c :: cs) [])) (c :: cs) rest := by
  have hc : c.isDigit = true := hdigits.2 c List.mem_cons_self
  have hcs : ∀ d ∈ cs, d.isDigit = true := fun d hd => hdigits.2 d (List.mem_cons_of_mem c hd)
  have hrest : ∀ d ∈ rest.head?, d.isDigit = false := fun d hd =>
    not_isDigit_of_not_continuesWord (hends.1 trivial d hd)
  have hsplit : splitFraction rest = ([], rest) := by
    rw [splitFraction.eq_2]
    rintro d tail rfl
    exact hends.2 trivial rfl
  obtain ⟨htake, hdrop⟩ := takeWhile_append_stop hcs hrest
  rw [nextToken, not_startsWord_of_isDigit hc, hc, htake, hdrop]
  simp only [hsplit]
  rfl

/-- A numeral with a point is read up to its end. -/
theorem nextToken_decimal {c : Char} {cs fraction rest : List Char} (hdigits : IsDigits (c :: cs))
    (hfraction : IsDigits fraction)
    (hends : EndsBefore (.number (numeral (c :: cs) fraction)) rest) :
    nextToken c (cs ++ '.' :: fraction ++ rest) =
      .token (.number (numeral (c :: cs) fraction)) (c :: cs ++ '.' :: fraction) rest := by
  have hc : c.isDigit = true := hdigits.2 c List.mem_cons_self
  have hcs : ∀ d ∈ cs, d.isDigit = true := fun d hd => hdigits.2 d (List.mem_cons_of_mem c hd)
  have hrest : ∀ d ∈ rest.head?, d.isDigit = false := fun d hd =>
    not_isDigit_of_not_continuesWord (hends.1 trivial d hd)
  have hpoint : ∀ d ∈ ('.' :: (fraction ++ rest)).head?, d.isDigit = false := by
    rintro _ ⟨⟩
    rfl
  obtain ⟨htake, hdrop⟩ := takeWhile_append_stop hcs hpoint
  obtain ⟨d, ds, rfl⟩ := List.exists_cons_of_ne_nil hfraction.1
  have hd : d.isDigit = true := hfraction.2 d List.mem_cons_self
  have hds : ∀ x ∈ ds, x.isDigit = true := fun x hx => hfraction.2 x (List.mem_cons_of_mem d hx)
  have hsplit : splitFraction ('.' :: (d :: ds ++ rest)) = (d :: ds, rest) := by
    obtain ⟨htake, hdrop⟩ := takeWhile_append_stop hds hrest
    rw [List.cons_append, splitFraction, if_pos hd, htake, hdrop]
  rw [List.append_assoc, List.cons_append, nextToken, not_startsWord_of_isDigit hc, hc, htake,
    hdrop]
  simp only [hsplit]
  rfl

namespace Literal

/-- The piece of a string that a character is written as. -/
def Piece.escaped (q c : Char) : Piece := if c = '\\' ∨ c = q then .pair c else .plain c

theorem Piece.escaped_fits (q c : Char) : (Piece.escaped q c).Fits q := by
  unfold Piece.escaped
  split
  · trivial
  · next hc => exact ⟨fun h => hc (.inr h), fun h => hc (.inl h)⟩

/-- A character that is escaped stands for itself, and is no line feed. -/
theorem Piece.meaning_escaped {q : Char} (hq : isQuote q = true) (c : Char) :
    (Piece.escaped q c).meaning = c ∧ Piece.escaped q c ≠ .pair '\n' := by
  unfold Piece.escaped
  split
  · next hc => obtain rfl | rfl := isQuote_iff.mp hq <;> obtain rfl | rfl := hc <;> decide
  · exact ⟨rfl, nofun⟩

theorem inner_escaped (q : Char) (value : List Char) :
    inner (value.map (Piece.escaped q)) = escape q value := by
  induction value with
  | nil => rfl
  | cons c value ih =>
    rw [List.map_cons, inner_cons, ih, escape, Piece.escaped]
    split <;> rfl

theorem escaped_fits (q : Char) (value : List Char) :
    ∀ piece ∈ value.map (Piece.escaped q), piece.Fits q :=
  List.forall_mem_map.mpr fun c _ => Piece.escaped_fits q c

end Literal

/-- What is escaped is read again. -/
theorem quotedRun_escape {q : Char} (hq : isQuote q = true) (value rest : List Char) :
    quotedRun q (escape q value ++ q :: rest) = .closed (escape q value ++ [q]) value rest := by
  have hmeaning : (value.map (Literal.Piece.escaped q)).map Literal.Piece.meaning = value := by
    rw [List.map_map]
    exact (List.map_congr_left fun c _ => (Literal.Piece.meaning_escaped hq c).1).trans
      (List.map_id value)
  have hline : .pair '\n' ∉ value.map (Literal.Piece.escaped q) := by
    rw [List.mem_map]
    rintro ⟨c, -, hc⟩
    exact (Literal.Piece.meaning_escaped hq c).2 hc
  rw [← Literal.inner_escaped, Literal.quotedRun_inner hq (Literal.escaped_fits q value) hline,
    hmeaning, quotedRun_quote]
  simp only [QuotedRun.prepend, List.append_nil]

theorem continuesWord_of_startsWord {c : Char} (h : startsWord c = true) :
    continuesWord c = true := by
  rw [startsWord, Bool.or_eq_true] at h
  rw [continuesWord, Char.isAlphanum, Bool.or_eq_true, Bool.or_eq_true]
  exact h.imp .inl id

theorem continuesWord_of_isDigit {c : Char} (h : c.isDigit = true) : continuesWord c = true := by
  rw [continuesWord, Char.isAlphanum, h, Bool.or_true, Bool.true_or]

theorem not_isSpace_of_continuesWord {c : Char} (h : continuesWord c = true) :
    isSpace c = false := by
  rw [Bool.eq_false_iff]
  intro hspace
  obtain rfl | rfl | rfl | rfl := isSpace_iff.mp hspace <;> cases h

/-- A written token is read again. -/
theorem Spells.nextToken {t : Token} {cs rest : List Char} (h : Spells t cs)
    (hends : EndsBefore t rest) : ∃ c tail, cs = c :: tail ∧ isSpace c = Bool.false ∧
      nextToken c (tail ++ rest) = .token t cs rest := by
  by_cases hword : Wordlike t ∧ ¬ Numeric t
  · obtain ⟨hcs, ht⟩ := h.isWord hword.1 hword.2
    cases cs with
    | nil => exact hcs.elim
    | cons c tail =>
      refine ⟨c, tail, rfl, not_isSpace_of_continuesWord (continuesWord_of_startsWord hcs.1), ?_⟩
      rw [nextToken_word hcs (hends.1 hword.1), ht]
  · have hblank {c : Char} {cs : List Char} (h : IsDigits (c :: cs)) : isSpace c = Bool.false :=
      not_isSpace_of_continuesWord (continuesWord_of_isDigit (h.2 c List.mem_cons_self))
    cases h with
    | mark m =>
      refine ⟨m.char, [], rfl, ?_, ?_⟩
      · cases m <;> rfl
      · cases m <;> rfl
    | @string q value hq =>
      refine ⟨q, _, rfl, ?_, ?_⟩
      · obtain rfl | rfl := isQuote_iff.mp hq <;> rfl
      · have hcode : startsWord q = false ∧ q.isDigit = false := by
          obtain rfl | rfl := isQuote_iff.mp hq <;> decide
        have hrun := quotedRun_escape hq value.toList rest
        rw [Syntax.nextToken, hcode.1, hcode.2, List.append_assoc, List.singleton_append, hq]
        simp only [hrun, String.ofList_toList]
        rfl
    | whole hdigits =>
      cases cs with
      | nil => exact absurd rfl hdigits.1
      | cons c cs =>
        exact ⟨c, cs, rfl, hblank hdigits, nextToken_whole hdigits hends⟩
    | @decimal digits fraction hdigits hfraction =>
      cases digits with
      | nil => exact absurd rfl hdigits.1
      | cons c cs =>
        exact ⟨c, _, rfl, hblank hdigits, nextToken_decimal hdigits hfraction hends⟩
    | _ => exact absurd ⟨trivial, not_false⟩ hword

/-! ## Going past what is written -/

section Skips

variable (close : Char)

theorem closingIn_code (depth : Nat) (c : Char) (rest : List Char) :
    closingIn close none depth (c :: rest) =
      if c = '"' ∨ c = '\'' then
        (closingIn close (some c) depth rest).map fun f => (c :: f.1, f.2)
      else if c = '\x7b' then
        (closingIn close none (depth + 1) rest).map fun f => (c :: f.1, f.2)
      else if c = '\x7d' ∧ 0 < depth then
        (closingIn close none (depth - 1) rest).map fun f => (c :: f.1, f.2)
      else if depth = 0 ∧ c = close ∧ rest.head? = some '\x7d' then some ([], rest.tail)
      else (closingIn close none depth rest).map fun f => (c :: f.1, f.2) := by
  rw [closingIn.eq_def]

/-- The search for the end of a tag goes past some characters. -/
def Skips (depth after : Nat) (piece : List Char) : Prop :=
  ∀ rest, closingIn close none depth (piece ++ rest) =
    (closingIn close none after rest).map fun f => (piece ++ f.1, f.2)

variable {close}

theorem Skips.nil (depth : Nat) : Skips close depth depth [] := by
  intro rest
  rw [List.nil_append]
  exact Option.map_id'.symm

theorem Skips.append {depth mid after : Nat} {piece tail : List Char}
    (h : Skips close depth mid piece) (ht : Skips close mid after tail) :
    Skips close depth after (piece ++ tail) := by
  intro rest
  rw [List.append_assoc, h, ht, Option.map_map]
  congr 1
  funext f
  rw [Function.comp_apply, List.append_assoc]

/-- A character that means nothing to the search. -/
def Inert (c : Char) : Prop := c ∉ ['"', '\'', '\x7b', '\x7d', '%']

instance (c : Char) : Decidable (Inert c) := inferInstanceAs (Decidable (c ∉ _))

theorem Inert.skips {isPrint : Bool} {c : Char} (hc : Inert c) (depth : Nat) :
    Skips (tagDelimiter isPrint).closing depth depth [c] := by
  simp only [Inert, List.mem_cons, List.not_mem_nil, or_false, not_or] at hc
  obtain ⟨hdouble, hsingle, hopen, hclose, hpercent⟩ := hc
  have hclosing : c ≠ (tagDelimiter isPrint).closing := by
    cases isPrint
    · exact hpercent
    · exact hclose
  intro rest
  rw [List.singleton_append, closingIn_code, if_neg (not_or.mpr ⟨hdouble, hsingle⟩), if_neg hopen,
    if_neg fun h => hclose h.1, if_neg fun h => hclosing h.2.1]
  rfl

theorem skips_of_inert {isPrint : Bool} {cs : List Char} (hcs : ∀ c ∈ cs, Inert c) (depth : Nat) :
    Skips (tagDelimiter isPrint).closing depth depth cs := by
  induction cs with
  | nil => exact .nil depth
  | cons c cs ih =>
    have hrest := ih fun d hd => hcs d (List.mem_cons_of_mem c hd)
    exact ((hcs c List.mem_cons_self).skips depth).append hrest

theorem inert_of_continuesWord {c : Char} (h : continuesWord c = true) : Inert c := by
  intro hc
  simp only [List.mem_cons, List.not_mem_nil, or_false] at hc
  obtain rfl | rfl | rfl | rfl | rfl := hc <;> cases h

theorem skips_brace (depth : Nat) : Skips close depth (depth + 1) ['\x7b'] := by
  intro rest
  rw [List.singleton_append, closingIn_code, if_neg (by decide), if_pos rfl]
  rfl

theorem skips_closingBrace (depth : Nat) : Skips close (depth + 1) depth ['\x7d'] := by
  intro rest
  rw [List.singleton_append, closingIn_code, if_neg (by decide), if_neg (by decide),
    if_pos ⟨rfl, Nat.succ_pos depth⟩]
  rfl

/-- The search for the end of a tag goes past a string, whatever it contains. -/
theorem Literal.skips {q : Char} {pieces : List Literal.Piece} (hq : isQuote q = true)
    (hpieces : ∀ piece ∈ pieces, piece.Fits q) (close : Char) (depth : Nat) :
    Skips close depth depth (Literal.write q pieces) := by
  intro rest
  have hmark : closingIn close (some q) depth (q :: rest) =
      (closingIn close none depth rest).map fun found => (q :: found.1, found.2) := by
    rw [closingIn_quotedChar close q depth (Literal.backslash_ne_of_isQuote hq).symm, if_pos rfl]
  rw [Literal.write, List.cons_append, closingIn_code, if_pos (isQuote_iff.mp hq),
    List.append_assoc, List.singleton_append, Literal.closingIn_inner hpieces, hmark,
    Option.map_map, Option.map_map]
  congr 1
  funext found
  simp

theorem skips_string {q : Char} (hq : isQuote q = true) (depth : Nat) (value : List Char) :
    Skips close depth depth (q :: (escape q value ++ [q])) := by
  rw [← Literal.inner_escaped]
  exact Literal.skips hq (Literal.escaped_fits q value) close depth

end Skips

/-- How deep the search is after a token: a brace that is opened makes it deeper, and one that is
    closed is the end of that. -/
inductive Nests : Nat → Token → Nat → Prop
  | opened (depth : Nat) : Nests depth (.mark .braceOpen) (depth + 1)
  | closed (depth : Nat) : Nests (depth + 1) (.mark .braceClose) depth
  | other {t : Token} (depth : Nat) : t ≠ .mark .braceOpen → t ≠ .mark .braceClose →
      Nests depth t depth

/-- The search for the end of a tag goes past a written token. -/
theorem Spells.skips {t : Token} {cs : List Char} (h : Spells t cs) {depth after : Nat}
    (hnests : Nests depth t after) (isPrint : Bool) :
    Skips (tagDelimiter isPrint).closing depth after cs := by
  cases hnests with
  | opened =>
    cases h
    exact skips_brace depth
  | closed =>
    cases h
    exact skips_closingBrace _
  | other depth hopen hclose =>
    have hdigits {digits : List Char} (h : IsDigits digits) : ∀ c ∈ digits, Inert c :=
      fun c hc => inert_of_continuesWord (continuesWord_of_isDigit (h.2 c hc))
    by_cases hword : Wordlike t ∧ ¬ Numeric t
    · obtain ⟨hcs, -⟩ := h.isWord hword.1 hword.2
      cases cs with
      | nil => exact hcs.elim
      | cons c cs =>
        refine skips_of_inert (fun d hd => inert_of_continuesWord ?_) depth
        obtain rfl | hd := List.mem_cons.mp hd
        · exact continuesWord_of_startsWord hcs.1
        · exact hcs.2 d hd
    · cases h with
      | mark m =>
        refine skips_of_inert (fun c hc => ?_) depth
        rw [List.mem_singleton.mp hc]
        cases m
        case braceOpen => exact absurd rfl hopen
        case braceClose => exact absurd rfl hclose
        all_goals decide
      | string value hq => exact skips_string hq depth value.toList
      | whole h => exact skips_of_inert (hdigits h) depth
      | decimal h hfraction =>
        refine skips_of_inert (fun c hc => ?_) depth
        obtain hc | hc := List.mem_append.mp hc
        · exact hdigits h c hc
        obtain rfl | hc := List.mem_cons.mp hc
        · decide
        · exact hdigits hfraction c hc
      | _ => exact absurd ⟨trivial, not_false⟩ hword

end Stencil.Syntax
