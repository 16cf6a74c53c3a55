import Stencil.Proofs.Parts

/-!
# Reading a source by its bytes

A lexer that works on bytes: it searches for delimiters byte by byte and cuts the source at the
offsets that it finds. A cut inside a character or outside the source is a crash, which has no
result. `Bytewise.lex` is that lexer, and it has the same result as `lexemes` for all sources. It
comes to an end since every search starts behind the last one.

In a quoted string a backslash takes the next byte with it, which can be the first byte of a longer
character. That does no harm, since all bytes of such a character differ from those of delimiters,
quotation marks, braces and backslashes.

Results:
* `Text.slice?_eq_some`: what a slice is.
* `Bytewise.findClosing_eq`: the search among bytes finds what the search among characters finds.
* `Bytewise.lex_eq`: no crash, and the same tokens.
-/

namespace Stencil

namespace Text

/-! ## Bytes -/

/-- The bytes of a piece of text in UTF-8. -/
def bytes (cs : List Char) : List UInt8 := cs.flatMap String.utf8EncodeChar

@[simp] theorem bytes_nil : bytes [] = [] := rfl

theorem bytes_cons (c : Char) (cs : List Char) :
    bytes (c :: cs) = String.utf8EncodeChar c ++ bytes cs := rfl

theorem bytes_append (xs ys : List Char) : bytes (xs ++ ys) = bytes xs ++ bytes ys :=
  List.flatMap_append

theorem length_bytes (cs : List Char) : (bytes cs).length = utf8Length cs := by
  induction cs with
  | nil => rfl
  | cons c cs ih =>
    rw [bytes_cons, List.length_append, String.length_utf8EncodeChar, ih, utf8Length_cons]

/-- A character of one byte is that byte, and all bytes of a longer one are at least 128. -/
theorem utf8EncodeChar_cases (c : Char) :
    c.toNat < 128 ∧ String.utf8EncodeChar c = [UInt8.ofNat c.toNat] ∨
      128 ≤ c.toNat ∧ String.utf8EncodeChar c ≠ [] ∧
        ∀ b ∈ String.utf8EncodeChar c, 128 ≤ b.toNat := by
  rw [String.utf8EncodeChar]
  by_cases hone : c.val.toNat ≤ 0x7f
  · refine .inl ⟨Nat.lt_succ_of_le hone, ?_⟩
    simp only [if_pos hone]
    rfl
  · have hc : 128 ≤ c.toNat := Nat.lt_of_not_le hone
    refine .inr ⟨hc, ?_⟩
    simp only [if_neg hone]
    split
    · simp
      omega
    split
    · simp
      omega
    · simp
      omega

/-- The byte of a character that has only one. -/
def byte (c : Char) : UInt8 := UInt8.ofNat c.toNat

theorem byte_toNat {c : Char} (hc : c.toNat < 128) : (byte c).toNat = c.toNat := by
  rw [byte, UInt8.toNat_ofNat']
  omega

/-- The first byte of a character tells it from those of one byte; the others are at least 128. -/
theorem utf8EncodeChar_eq_cons (c : Char) :
    ∃ b bs, String.utf8EncodeChar c = b :: bs ∧ (∀ x ∈ bs, 128 ≤ x.toNat) ∧
      ∀ d : Char, d.toNat < 128 → ((b = byte d ↔ c = d) ∧ (c = d → bs = [])) := by
  obtain ⟨hc, hone⟩ | ⟨hc, hne, hlarge⟩ := utf8EncodeChar_cases c
  · refine ⟨_, _, hone, fun x hx => absurd hx List.not_mem_nil, fun d hd => ⟨⟨fun h => ?_, ?_⟩, ?_⟩⟩
    · have hbytes : (byte c).toNat = (byte d).toNat := congrArg UInt8.toNat h
      rw [byte_toNat hc, byte_toNat hd] at hbytes
      exact Char.toNat_inj.mp hbytes
    · rintro rfl
      rfl
    · intro _
      rfl
  · obtain ⟨b, bs, hcons⟩ := List.exists_cons_of_ne_nil hne
    rw [hcons] at hlarge
    have hb : 128 ≤ b.toNat := hlarge b List.mem_cons_self
    refine ⟨b, bs, hcons, fun x hx => hlarge x (List.mem_cons_of_mem b hx), fun d hd => ?_⟩
    have hcd : c ≠ d := by
      rintro rfl
      omega
    refine ⟨⟨fun h => ?_, fun h => absurd h hcd⟩, fun h => absurd h hcd⟩
    rw [h, byte_toNat hd] at hb
    omega

/-- The first byte of a text tells whether it starts with a character of one byte. -/
theorem head?_bytes {d : Char} (hd : d.toNat < 128) (cs : List Char) :
    (bytes cs).head? = some (byte d) ↔ cs.head? = some d := by
  cases cs with
  | nil => simp
  | cons c cs =>
    obtain ⟨b, bs, hc, -, hb⟩ := utf8EncodeChar_eq_cons c
    rw [bytes_cons, hc, List.cons_append, List.head?_cons, List.head?_cons, Option.some.injEq,
      Option.some.injEq]
    exact (hb d hd).1

/-- The bytes from the offset of a piece of text on. -/
theorem drop_bytes (front cs : List Char) :
    (bytes (front ++ cs)).drop (utf8Length front) = bytes cs := by
  rw [bytes_append, ← length_bytes, List.drop_left]

/-- The byte at the offset of a piece of text. -/
theorem getElem?_bytes (front cs : List Char) :
    (bytes (front ++ cs))[utf8Length front]? = (bytes cs).head? := by
  rw [List.head?_eq_getElem?, ← drop_bytes front cs, List.getElem?_drop, Nat.add_zero]

/-! ## Slices -/

/-- The text from a byte offset on. There is none if the offset is inside a character or outside
    the text. -/
def from? : List Char → Nat → Option (List Char)
  | cs, 0 => some cs
  | [], _ + 1 => none
  | c :: cs, n + 1 => if c.utf8Size ≤ n + 1 then from? cs (n + 1 - c.utf8Size) else none

/-- The text up to a byte offset, with the same exceptions. -/
def upTo? : List Char → Nat → Option (List Char)
  | _, 0 => some []
  | [], _ + 1 => none
  | c :: cs, n + 1 =>
    if c.utf8Size ≤ n + 1 then (upTo? cs (n + 1 - c.utf8Size)).map (c :: ·) else none

/-- The text between two byte offsets, with the same exceptions. -/
def slice? (cs : List Char) (start stop : Nat) : Option (List Char) :=
  if start ≤ stop then (from? cs start).bind fun rest => upTo? rest (stop - start) else none

theorem utf8Length_le_append (xs ys : List Char) : utf8Length xs ≤ utf8Length (xs ++ ys) := by
  rw [utf8Length_append]
  omega

theorem utf8Length_eq_zero {cs : List Char} : utf8Length cs = 0 ↔ cs = [] := by
  cases cs with
  | nil => simp
  | cons c cs =>
    have hc := c.utf8Size_pos
    simp only [utf8Length_cons, reduceCtorEq, iff_false]
    omega

theorem from?_eq_some {cs rest : List Char} {n : Nat} :
    from? cs n = some rest ↔ ∃ front, cs = front ++ rest ∧ utf8Length front = n := by
  fun_induction from? cs n with
  | case1 cs =>
    constructor
    · intro h
      exact ⟨[], Option.some.inj h, rfl⟩
    · rintro ⟨front, rfl, hfront⟩
      rw [utf8Length_eq_zero.mp hfront, List.nil_append]
  | case2 n =>
    constructor
    · intro h
      cases h
    · rintro ⟨front, hnil, hfront⟩
      rw [(List.append_eq_nil_iff.mp hnil.symm).1] at hfront
      cases hfront
  | case3 c cs n hc ih =>
    rw [ih]
    constructor
    · rintro ⟨front, rfl, hfront⟩
      refine ⟨c :: front, rfl, ?_⟩
      rw [utf8Length_cons, hfront, Nat.add_sub_cancel' hc]
    · rintro ⟨front, hcs, hfront⟩
      cases front with
      | nil => cases hfront
      | cons d front =>
        obtain ⟨rfl, rfl⟩ := List.cons.inj hcs
        rw [utf8Length_cons] at hfront
        exact ⟨front, rfl, by omega⟩
  | case4 c cs n hc =>
    constructor
    · intro h
      cases h
    · rintro ⟨front, hcs, hfront⟩
      cases front with
      | nil => cases hfront
      | cons d front =>
        obtain ⟨rfl, rfl⟩ := List.cons.inj hcs
        rw [utf8Length_cons] at hfront
        omega

theorem upTo?_eq_some {cs front : List Char} {n : Nat} :
    upTo? cs n = some front ↔ ∃ rest, cs = front ++ rest ∧ utf8Length front = n := by
  fun_induction upTo? cs n generalizing front with
  | case1 cs =>
    constructor
    · intro h
      cases h
      exact ⟨cs, rfl, rfl⟩
    · rintro ⟨rest, rfl, hfront⟩
      rw [utf8Length_eq_zero.mp hfront]
  | case2 n =>
    constructor
    · intro h
      cases h
    · rintro ⟨rest, hnil, hfront⟩
      rw [(List.append_eq_nil_iff.mp hnil.symm).1] at hfront
      cases hfront
  | case3 c cs n hc ih =>
    constructor
    · intro h
      obtain ⟨tail, htail, rfl⟩ := Option.map_eq_some_iff.mp h
      obtain ⟨rest, rfl, hfront⟩ := ih.mp htail
      refine ⟨rest, rfl, ?_⟩
      rw [utf8Length_cons]
      omega
    · rintro ⟨rest, hcs, hfront⟩
      cases front with
      | nil => cases hfront
      | cons d front =>
        obtain ⟨rfl, rfl⟩ := List.cons.inj hcs
        rw [utf8Length_cons] at hfront
        rw [ih.mpr ⟨rest, rfl, by omega⟩, Option.map_some]
  | case4 c cs n hc =>
    constructor
    · intro h
      cases h
    · rintro ⟨rest, hcs, hfront⟩
      cases front with
      | nil => cases hfront
      | cons d front =>
        obtain ⟨rfl, rfl⟩ := List.cons.inj hcs
        rw [utf8Length_cons] at hfront
        omega

theorem le_of_from? {cs rest : List Char} {n : Nat} (h : from? cs n = some rest) :
    n ≤ utf8Length cs := by
  obtain ⟨front, rfl, rfl⟩ := from?_eq_some.mp h
  exact utf8Length_le_append front rest

/-- A slice is a piece of the text with these offsets. -/
theorem slice?_eq_some {cs piece : List Char} {start stop : Nat} :
    slice? cs start stop = some piece ↔ ∃ front rest, cs = front ++ (piece ++ rest) ∧
      utf8Length front = start ∧ start + utf8Length piece = stop := by
  rw [slice?]
  constructor
  · intro h
    split at h
    case isTrue hle =>
      obtain ⟨tail, htail, hpiece⟩ := Option.bind_eq_some_iff.mp h
      obtain ⟨front, rfl, hfront⟩ := from?_eq_some.mp htail
      obtain ⟨rest, rfl, hlength⟩ := upTo?_eq_some.mp hpiece
      exact ⟨front, rest, rfl, hfront, by omega⟩
    case isFalse => cases h
  · rintro ⟨front, rest, rfl, hfront, hstop⟩
    rw [if_pos (by omega), from?_eq_some.mpr ⟨front, rfl, hfront⟩, Option.bind_some]
    exact upTo?_eq_some.mpr ⟨rest, rfl, by omega⟩

/-- The byte offset of the first occurrence of a character. -/
def offsetOf? (c : Char) : List Char → Option Nat
  | [] => none
  | d :: cs => if d = c then some 0 else (offsetOf? c cs).map (d.utf8Size + ·)

end Text

namespace Syntax.Bytewise

/-! ## The lexer -/

/-- Where the next opening delimiter at or after an offset is, if there is one (`find_opening`). -/
def findOpening (source : List Char) (pos : Nat) : Option (Option (Nat × Delimiter)) :=
  match _hfrom : Text.from? source pos with
  | none => none
  | some rest =>
    match Text.offsetOf? '\x7b' rest with
    | none => some none
    | some offset =>
      match (Text.bytes source)[pos + offset + 1]? with
      | some 0x7b => some (some (pos + offset, .print))
      | some 0x25 => some (some (pos + offset, .tag))
      | some 0x23 => some (some (pos + offset, .comment))
      | _ => findOpening source (pos + offset + 1)
termination_by Text.utf8Length source + 1 - pos
decreasing_by
  have hpos := Text.le_of_from? _hfrom
  omega

/-- A search for an opening delimiter does not go back. -/
theorem le_of_findOpening {source : List Char} {pos opened : Nat} {kind : Delimiter}
    (h : findOpening source pos = some (some (opened, kind))) : pos ≤ opened := by
  fun_induction findOpening source pos with
  | case1 => cases h
  | case2 => cases h
  | case3 =>
    cases h
    omega
  | case4 =>
    cases h
    omega
  | case5 =>
    cases h
    omega
  | case6 pos rest hfrom offset hoffset _ _ _ ih =>
    have hnext := ih h
    omega

/-- Whether some bytes start with the closing delimiter of a part. -/
def closesWith (kind : Delimiter) (bs : List UInt8) : Bool :=
  List.isPrefixOf [Text.byte kind.closing, Text.byte '\x7d'] bs

/-- Where the closing delimiter of a part is, among bytes that start at an offset (`find_closing`).
    `quote` is the quotation mark of the string that the search is in, and `depth` the number of
    open braces. -/
def findClosing (kind : Delimiter) (quote : Option UInt8) (depth : Nat) (pos : Nat) :
    List UInt8 → Option Nat
  | [] => none
  | b :: rest =>
    match quote with
    | some q =>
      if b = Text.byte '\\' then
        match rest with
        | [] => none
        | _ :: rest => findClosing kind quote depth (pos + 2) rest
      else findClosing kind (if b = q then none else quote) depth (pos + 1) rest
    | none =>
      if kind = .comment then
        if closesWith kind (b :: rest) then some pos else findClosing kind none depth (pos + 1) rest
      else if b = Text.byte '"' ∨ b = Text.byte '\'' then
        findClosing kind (some b) depth (pos + 1) rest
      else if b = Text.byte '\x7b' then findClosing kind none (depth + 1) (pos + 1) rest
      else if b = Text.byte '\x7d' ∧ 0 < depth then
        findClosing kind none (depth - 1) (pos + 1) rest
      else if depth = 0 ∧ closesWith kind (b :: rest) then some pos
      else findClosing kind none depth (pos + 1) rest

/-- A search for a closing delimiter does not go back. -/
theorem le_of_findClosing {kind : Delimiter} {quote : Option UInt8} {depth pos closed : Nat}
    {bs : List UInt8} (h : findClosing kind quote depth pos bs = some closed) : pos ≤ closed := by
  fun_induction findClosing kind quote depth pos bs with
  | case1 => cases h
  | _ => grind

/-- The tokens of the code of a tag (`lex_code`). What cannot be a token is cut out of the code for
    the message. -/
def lexCode (code : List Char) (offset : Nat) : Option (Except Fault (List Lexeme)) :=
  match codeLexemes offset code with
  | .ok found => some (.ok found)
  | .error fault => do
    let slice ← Text.slice? code (fault.span.start - offset) (fault.span.stop - offset)
    some (.error { fault with cause := .unexpectedText (String.ofList slice) })

/-- The tokens of one delimited part with the offsets of its delimiters. -/
def lexPart (source : List Char) (kind : Delimiter) (opened closed : Nat) :
    Option (Except Fault (List Lexeme)) :=
  let delimited (opening closing : Token) := do
    let code ← Text.slice? source (opened + 2) closed
    let found ← lexCode code (opened + 2)
    some (found.map fun inner =>
      ⟨opening, ⟨opened, opened + 2⟩⟩ :: inner ++ [⟨closing, ⟨closed, closed + 2⟩⟩])
  match kind with
  | .comment => some (.ok [])
  | .print => delimited .printOpen .printClose
  | .tag => delimited .tagOpen .tagClose

/-- The text between two offsets, if it is not empty. -/
def lexText (source : List Char) (pos opened : Nat) : Option (List Lexeme) :=
  if pos < opened then do
    let text ← Text.slice? source pos opened
    some [⟨.text (String.ofList text), ⟨pos, opened⟩⟩]
  else some []

/-- The tokens from an offset on (the loop of `lex`). -/
def lexFrom (source : List Char) (pos : Nat) : Option (Except Fault (List Lexeme)) :=
  if pos < Text.utf8Length source then
    match _hopening : findOpening source pos with
    | none => none
    | some none => do
      let text ← Text.from? source pos
      some (.ok [⟨.text (String.ofList text), ⟨pos, Text.utf8Length source⟩⟩])
    | some (some (opened, kind)) => do
      let text ← lexText source pos opened
      let bytes := (Text.bytes source).drop (opened + 2)
      match _hclosing : findClosing kind none 0 (opened + 2) bytes with
      | none => some (.error ⟨⟨opened, Text.utf8Length source⟩, .unclosed kind, []⟩)
      | some closed =>
        match ← lexPart source kind opened closed with
        | .error fault => some (.error fault)
        | .ok part => do
          let others ← lexFrom source (closed + 2)
          some (others.map fun rest => text ++ part ++ rest)
  else some (.ok [])
termination_by Text.utf8Length source - pos
decreasing_by
  have hopened := le_of_findOpening _hopening
  have hclosed := le_of_findClosing _hclosing
  omega

theorem lexFrom_of_lt {source : List Char} {pos : Nat} (h : pos < Text.utf8Length source) :
    lexFrom source pos = (do
      match ← findOpening source pos with
      | none =>
        let text ← Text.from? source pos
        some (.ok [⟨.text (String.ofList text), ⟨pos, Text.utf8Length source⟩⟩])
      | some (opened, kind) =>
        let text ← lexText source pos opened
        match findClosing kind none 0 (opened + 2) ((Text.bytes source).drop (opened + 2)) with
        | none => some (.error ⟨⟨opened, Text.utf8Length source⟩, .unclosed kind, []⟩)
        | some closed =>
          match ← lexPart source kind opened closed with
          | .error fault => some (.error fault)
          | .ok part => do
            let others ← lexFrom source (closed + 2)
            some (others.map fun rest => text ++ part ++ rest)) := by
  rw [lexFrom.eq_1, if_pos h]
  split
  case h_1 hopening =>
    rw [hopening]
    rfl
  case h_2 hopening =>
    rw [hopening]
    rfl
  case h_3 opened kind hopening =>
    rw [hopening]
    refine congrArg (lexText source pos opened).bind (funext fun text => ?_)
    dsimp only
    split
    case h_1 hclosing => rw [hclosing]
    case h_2 hclosing => rw [hclosing]

/-- The tokens of a source (`lex`). -/
def lex (source : List Char) : Option (Except Fault (List Lexeme)) := lexFrom source 0

/-! ## Delimiters that open a part -/

theorem getElem?_bytes_succ (front rest : List Char) :
    (Text.bytes (front ++ '\x7b' :: rest))[Text.utf8Length front + 1]? =
      (Text.bytes rest).head? := by
  have hbrace : String.utf8EncodeChar '\x7b' = [0x7b] := rfl
  rw [← List.getElem?_drop, Text.drop_bytes, Text.bytes_cons, hbrace, List.singleton_append,
    List.getElem?_cons_succ, List.head?_eq_getElem?]

/-- The search for an opening delimiter goes past other characters. -/
theorem findOpening_skip {front cs : List Char} {c : Char} (hc : c ≠ '\x7b') :
    findOpening (front ++ c :: cs) (Text.utf8Length front) =
      findOpening ((front ++ [c]) ++ cs) (Text.utf8Length (front ++ [c])) := by
  have hfrom : Text.from? (front ++ c :: cs) (Text.utf8Length front) = some (c :: cs) :=
    Text.from?_eq_some.mpr ⟨front, rfl, rfl⟩
  have hnext : Text.from? ((front ++ [c]) ++ cs) (Text.utf8Length (front ++ [c])) = some cs :=
    Text.from?_eq_some.mpr ⟨front ++ [c], rfl, rfl⟩
  have hsource : (front ++ [c]) ++ cs = front ++ c :: cs := by simp
  have hlength : Text.utf8Length (front ++ [c]) = Text.utf8Length front + c.utf8Size := by
    rw [Text.utf8Length_append, Text.utf8Length_cons, Text.utf8Length_nil, Nat.add_zero]
  rw [findOpening.eq_1, findOpening.eq_1 _ (Text.utf8Length (front ++ [c])), hfrom, hnext]
  simp only [Text.offsetOf?, if_neg hc]
  cases Text.offsetOf? '\x7b' cs with
  | none => rfl
  | some offset => simp only [Option.map_some, hsource, hlength, Nat.add_assoc]

/-- At a brace the search looks at the next byte. -/
theorem findOpening_brace (front rest : List Char) :
    findOpening (front ++ '\x7b' :: rest) (Text.utf8Length front) =
      match (Text.bytes rest).head? with
      | some 0x7b => some (some (Text.utf8Length front, .print))
      | some 0x25 => some (some (Text.utf8Length front, .tag))
      | some 0x23 => some (some (Text.utf8Length front, .comment))
      | _ => findOpening ((front ++ ['\x7b']) ++ rest) (Text.utf8Length (front ++ ['\x7b'])) := by
  have hfrom : Text.from? (front ++ '\x7b' :: rest) (Text.utf8Length front) =
      some ('\x7b' :: rest) := Text.from?_eq_some.mpr ⟨front, rfl, rfl⟩
  have hlength : Text.utf8Length (front ++ ['\x7b']) = Text.utf8Length front + 1 :=
    Text.utf8Length_append front ['\x7b']
  rw [findOpening.eq_1, hfrom, hlength, List.append_assoc, List.singleton_append]
  simp only [Text.offsetOf?, if_true, Nat.add_zero, getElem?_bytes_succ]

/-- Where an opening delimiter is according to `openingIn`. -/
def openingAt (pos : Nat) (cs : List Char) : Option (Nat × Delimiter) :=
  (openingIn cs).2.map fun found => (pos + Text.utf8Length (openingIn cs).1, found.1)

theorem openingAt_cons {c : Char} {cs : List Char} (pos : Nat)
    (h : openingIn (c :: cs) = (c :: (openingIn cs).1, (openingIn cs).2)) :
    openingAt pos (c :: cs) = openingAt (pos + c.utf8Size) cs := by
  rw [openingAt, h, openingAt, Text.utf8Length_cons, Nat.add_assoc]

/-- The two searches for an opening delimiter agree. -/
theorem findOpening_eq (front cs : List Char) :
    findOpening (front ++ cs) (Text.utf8Length front) =
      some (openingAt (Text.utf8Length front) cs) := by
  fun_induction openingIn cs generalizing front with
  | case1 rest =>
    have hbyte := (Text.head?_bytes (d := '\x7b') (by decide) ('\x7b' :: rest)).mpr rfl
    rw [findOpening_brace, hbyte]
    rfl
  | case2 rest =>
    have hbyte := (Text.head?_bytes (d := '%') (by decide) ('%' :: rest)).mpr rfl
    rw [findOpening_brace, hbyte]
    rfl
  | case3 rest =>
    have hbyte := (Text.head?_bytes (d := '#') (by decide) ('#' :: rest)).mpr rfl
    rw [findOpening_brace, hbyte]
    rfl
  | case4 c rest h1 h2 h3 found ih =>
    have hopening : openingIn (c :: rest) = (c :: (openingIn rest).1, (openingIn rest).2) := by
      rw [openingIn]
      · exact h1
      · exact h2
      · exact h3
    have hlength : Text.utf8Length (front ++ [c]) = Text.utf8Length front + c.utf8Size :=
      Text.utf8Length_append front [c]
    rw [openingAt_cons _ hopening, ← hlength, ← ih]
    by_cases hc : c = '\x7b'
    · subst hc
      -- The next character makes no delimiter, and so the next byte makes none.
      have hnext {d : Char} (hd : d.toNat < 128) (h : ∀ tail, rest = d :: tail → False) :
          (Text.bytes rest).head? ≠ some (Text.byte d) := by
        intro hbyte
        obtain ⟨tail, htail⟩ := List.head?_eq_some_iff.mp ((Text.head?_bytes hd rest).mp hbyte)
        exact h tail htail
      rw [findOpening_brace]
      split
      · rename_i hbyte
        exact absurd hbyte (hnext (d := '\x7b') (by decide) fun tail => h1 tail rfl)
      · rename_i hbyte
        exact absurd hbyte (hnext (d := '%') (by decide) fun tail => h2 tail rfl)
      · rename_i hbyte
        exact absurd hbyte (hnext (d := '#') (by decide) fun tail => h3 tail rfl)
      · rfl
    · exact findOpening_skip hc
  | case5 =>
    have hfrom : Text.from? (front ++ []) (Text.utf8Length front) = some [] :=
      Text.from?_eq_some.mpr ⟨front, rfl, rfl⟩
    rw [findOpening.eq_1, hfrom]
    rfl

/-! ## Delimiters that close a part -/

/-- A quotation mark that a search for a closing delimiter can be in. -/
def Quoting (quote : Option Char) : Prop := ∀ q ∈ quote, q.toNat < 128

theorem findClosing_quoted (kind : Delimiter) (q b : UInt8) (depth pos : Nat)
    (rest : List UInt8) :
    findClosing kind (some q) depth pos (b :: rest) =
      if b = Text.byte '\\' then
        match rest with
        | [] => none
        | _ :: rest => findClosing kind (some q) depth (pos + 2) rest
      else findClosing kind (if b = q then none else some q) depth (pos + 1) rest := by
  cases rest <;> rw [findClosing.eq_def]

theorem findClosing_comment (b : UInt8) (depth pos : Nat) (rest : List UInt8) :
    findClosing .comment none depth pos (b :: rest) =
      if closesWith .comment (b :: rest) then some pos
      else findClosing .comment none depth (pos + 1) rest := by
  rw [findClosing.eq_def]
  rfl

theorem findClosing_code {kind : Delimiter} (hkind : kind ≠ .comment) (b : UInt8)
    (depth pos : Nat) (rest : List UInt8) :
    findClosing kind none depth pos (b :: rest) =
      if b = Text.byte '"' ∨ b = Text.byte '\'' then
        findClosing kind (some b) depth (pos + 1) rest
      else if b = Text.byte '\x7b' then findClosing kind none (depth + 1) (pos + 1) rest
      else if b = Text.byte '\x7d' ∧ 0 < depth then
        findClosing kind none (depth - 1) (pos + 1) rest
      else if depth = 0 ∧ closesWith kind (b :: rest) then some pos
      else findClosing kind none depth (pos + 1) rest := by
  rw [findClosing.eq_def]
  simp only [if_neg hkind]

theorem closesWith_cons (kind : Delimiter) (b : UInt8) (rest : List UInt8) :
    closesWith kind (b :: rest) = true ↔
      b = Text.byte kind.closing ∧ rest.head? = some (Text.byte '\x7d') := by
  rw [closesWith, List.isPrefixOf, Bool.and_eq_true, beq_iff_eq, eq_comm]
  refine and_congr_right fun _ => ?_
  cases rest with
  | nil => simp [List.isPrefixOf]
  | cons c rest =>
    rw [List.isPrefixOf, List.isPrefixOf, Bool.and_true, beq_iff_eq, List.head?_cons,
      Option.some.injEq, eq_comm]

theorem closing_lt (kind : Delimiter) : kind.closing.toNat < 128 := by
  cases kind <;> decide

/-- The search for a closing delimiter goes past bytes that are no characters of their own. -/
theorem findClosing_skip {kind : Delimiter} {quote : Option Char} (hquote : Quoting quote)
    (depth pos : Nat) {bs : List UInt8} (hbs : ∀ b ∈ bs, 128 ≤ b.toNat) (rest : List UInt8) :
    findClosing kind (quote.map Text.byte) depth pos (bs ++ rest) =
      findClosing kind (quote.map Text.byte) depth (pos + bs.length) rest := by
  induction bs generalizing pos with
  | nil => rfl
  | cons b bs ih =>
    have hb : 128 ≤ b.toNat := hbs b List.mem_cons_self
    have hne {d : Char} (hd : d.toNat < 128) : b ≠ Text.byte d := by
      rintro rfl
      rw [Text.byte_toNat hd] at hb
      omega
    have hrest := ih (pos + 1) fun x hx => hbs x (List.mem_cons_of_mem b hx)
    rw [List.cons_append, List.length_cons, Nat.add_comm bs.length, ← Nat.add_assoc, ← hrest]
    have hcloses : ¬ closesWith kind (b :: (bs ++ rest)) = true := by
      intro h
      exact hne (closing_lt kind) ((closesWith_cons kind b _).mp h).1
    cases quote with
    | some q =>
      rw [Option.map_some, findClosing_quoted, if_neg (hne (d := '\\') (by decide)),
        if_neg (hne (hquote q rfl))]
    | none =>
      rw [Option.map_none]
      by_cases hkind : kind = .comment
      · subst hkind
        rw [findClosing_comment, if_neg hcloses]
      · rw [findClosing_code hkind, if_neg (not_or.mpr ⟨hne (d := '"') (by decide),
          hne (d := '\'') (by decide)⟩), if_neg (hne (d := '\x7b') (by decide)),
          if_neg fun h => hne (d := '\x7d') (by decide) h.1, if_neg fun h => hcloses h.2]

/-- After the first byte of a character the search gets to the next character. -/
theorem findClosing_rest (kind : Delimiter) {quote : Option Char} (hquote : Quoting quote)
    {c : Char} {b : UInt8} {bs : List UInt8} (hc : String.utf8EncodeChar c = b :: bs)
    (hbs : ∀ x ∈ bs, 128 ≤ x.toNat) (depth pos : Nat) (rest : List UInt8) :
    findClosing kind (quote.map Text.byte) depth (pos + 1) (bs ++ rest) =
      findClosing kind (quote.map Text.byte) depth (pos + c.utf8Size) rest := by
  have hsize : c.utf8Size = bs.length + 1 := by
    rw [← String.length_utf8EncodeChar, hc, List.length_cons]
  rw [findClosing_skip hquote depth (pos + 1) hbs, hsize, Nat.add_assoc, Nat.add_comm 1]

theorem Quoting.none : Quoting none := fun _ hq => nomatch hq

/-- A character of a quoted string. -/
theorem findClosing_quotedChar (kind : Delimiter) {q : Char} (hquote : Quoting (some q)) (c : Char)
    (depth pos : Nat) (rest : List Char) :
    findClosing kind (some (Text.byte q)) depth pos (Text.bytes (c :: rest)) =
      if c = '\\' then
        match rest with
        | [] => none
        | d :: rest =>
          findClosing kind (some (Text.byte q)) depth (pos + c.utf8Size + d.utf8Size)
            (Text.bytes rest)
      else
        findClosing kind ((if c = q then none else some q).map Text.byte) depth (pos + c.utf8Size)
          (Text.bytes rest) := by
  obtain ⟨b, bs, hbytes, hbs, hb⟩ := Text.utf8EncodeChar_eq_cons c
  rw [Text.bytes_cons, hbytes, List.cons_append, findClosing_quoted]
  by_cases hc : c = '\\'
  · rw [if_pos hc, if_pos ((hb _ (by decide)).1.mpr hc), (hb _ (by decide)).2 hc]
    subst hc
    cases rest with
    | nil => rfl
    | cons d rest =>
      -- The first byte of the next character is skipped, whatever it is.
      obtain ⟨x, xs, hd, hxs, -⟩ := Text.utf8EncodeChar_eq_cons d
      have hrest := findClosing_rest kind hquote hd hxs depth (pos + 1) (Text.bytes rest)
      rw [Text.bytes_cons, hd]
      exact hrest
  · have hnext : Quoting (if c = q then Option.none else some q) := by
      split
      · exact .none
      · exact hquote
    have hmap : (if c = q then Option.none else some q).map Text.byte =
        if b = Text.byte q then Option.none else some (Text.byte q) := by
      have hbq := (hb q (hquote q rfl)).1
      by_cases hq : c = q
      · rw [if_pos hq, if_pos (hbq.mpr hq), Option.map_none]
      · rw [if_neg hq, if_neg fun h => hq (hbq.mp h), Option.map_some]
    rw [if_neg hc, if_neg fun h => hc ((hb _ (by decide)).1.mp h), ← hmap,
      findClosing_rest kind hnext hbytes hbs]

/-- A character of a tag outside of quoted strings. -/
theorem findClosing_codeChar {kind : Delimiter} (hkind : kind ≠ .comment) (c : Char)
    (depth pos : Nat) (rest : List Char) :
    findClosing kind none depth pos (Text.bytes (c :: rest)) =
      if c = '"' ∨ c = '\'' then
        findClosing kind (some (Text.byte c)) depth (pos + c.utf8Size) (Text.bytes rest)
      else if c = '\x7b' then
        findClosing kind none (depth + 1) (pos + c.utf8Size) (Text.bytes rest)
      else if c = '\x7d' ∧ 0 < depth then
        findClosing kind none (depth - 1) (pos + c.utf8Size) (Text.bytes rest)
      else if depth = 0 ∧ c = kind.closing ∧ rest.head? = some '\x7d' then some pos
      else findClosing kind none depth (pos + c.utf8Size) (Text.bytes rest) := by
  obtain ⟨b, bs, hbytes, hbs, hb⟩ := Text.utf8EncodeChar_eq_cons c
  have hcloses : closesWith kind (b :: (bs ++ Text.bytes rest)) = true ↔
      c = kind.closing ∧ rest.head? = some '\x7d' := by
    obtain ⟨hclosing, hsingle⟩ := hb kind.closing (closing_lt kind)
    rw [closesWith_cons, hclosing]
    refine and_congr_right fun hc => ?_
    rw [hsingle hc, List.nil_append, Text.head?_bytes (by decide)]
  rw [Text.bytes_cons, hbytes, List.cons_append, findClosing_code hkind]
  simp only [(hb '"' (by decide)).1, (hb '\'' (by decide)).1, (hb '\x7b' (by decide)).1,
    (hb '\x7d' (by decide)).1, hcloses]
  have hrest (depth : Nat) := findClosing_rest kind .none hbytes hbs depth pos (Text.bytes rest)
  rw [Option.map_none] at hrest
  rw [hrest, hrest, hrest]
  by_cases hc : c = '"' ∨ c = '\''
  · have hquote : Quoting (some c) := by
      rintro _ ⟨⟩
      obtain rfl | rfl := hc <;> decide
    have hbc : b = Text.byte c := (hb c (hquote c rfl)).1.mpr rfl
    rw [if_pos hc, if_pos hc, hbc]
    exact findClosing_rest kind hquote hbytes hbs depth pos (Text.bytes rest)
  · rw [if_neg hc, if_neg hc]

/-- A character of a comment. -/
theorem findClosing_commentChar (c : Char) (pos : Nat) (rest : List Char) :
    findClosing .comment none 0 pos (Text.bytes (c :: rest)) =
      if c = '#' ∧ rest.head? = some '\x7d' then some pos
      else findClosing .comment none 0 (pos + c.utf8Size) (Text.bytes rest) := by
  obtain ⟨b, bs, hbytes, hbs, hb⟩ := Text.utf8EncodeChar_eq_cons c
  have hcloses : closesWith .comment (b :: (bs ++ Text.bytes rest)) = true ↔
      c = '#' ∧ rest.head? = some '\x7d' := by
    obtain ⟨hclosing, hsingle⟩ := hb '#' (by decide)
    rw [closesWith_cons]
    show b = Text.byte '#' ∧ _ ↔ _
    rw [hclosing]
    refine and_congr_right fun hc => ?_
    rw [hsingle hc, List.nil_append, Text.head?_bytes (by decide)]
  have hrest := findClosing_rest .comment .none hbytes hbs 0 pos (Text.bytes rest)
  rw [Option.map_none] at hrest
  rw [Text.bytes_cons, hbytes, List.cons_append, findClosing_comment, hrest]
  simp only [hcloses]

/-- Where a closing delimiter is, after a character that belongs to the content. -/
theorem map_content_cons (c : Char) (found : Option (List Char × List Char)) (pos : Nat) :
    ((found.map fun f => (c :: f.1, f.2)).map fun f => pos + Text.utf8Length f.1) =
      found.map fun f => pos + c.utf8Size + Text.utf8Length f.1 := by
  rw [Option.map_map]
  congr 1
  funext f
  rw [Function.comp_apply, Text.utf8Length_cons, Nat.add_assoc]

/-- The two searches for the end of a tag agree. -/
theorem findClosing_eq {kind : Delimiter} (hkind : kind ≠ .comment) {quote : Option Char}
    (hquote : Quoting quote) (depth pos : Nat) (cs : List Char) :
    findClosing kind (quote.map Text.byte) depth pos (Text.bytes cs) =
      (closingIn kind.closing quote depth cs).map fun f => pos + Text.utf8Length f.1 := by
  fun_induction closingIn kind.closing quote depth cs generalizing pos with
  | case1 => rw [Text.bytes_nil, findClosing, Option.map_none]
  | case2 depth q =>
    rw [Option.map_some, findClosing_quotedChar kind hquote, if_pos rfl, Option.map_none]
  | case3 depth q d rest ih =>
    rw [Option.map_some] at ih
    rw [Option.map_some, findClosing_quotedChar kind hquote, if_pos rfl, Option.map_map]
    show findClosing kind (some (Text.byte q)) depth _ _ = _
    rw [ih hquote]
    congr 1
    funext f
    rw [Function.comp_apply, Text.utf8Length_cons, Text.utf8Length_cons, ← Nat.add_assoc,
      ← Nat.add_assoc]
  | case4 depth c rest q hc ih =>
    have hnext : Quoting (if c = q then none else some q) := by
      split
      · exact .none
      · exact hquote
    rw [Option.map_some, findClosing_quotedChar kind hquote, if_neg hc, ih hnext,
      map_content_cons]
  | case5 depth c rest hc ih =>
    have hnext : Quoting (some c) := by
      rintro _ ⟨⟩
      obtain rfl | rfl := hc <;> decide
    rw [Option.map_none, findClosing_codeChar hkind, if_pos hc, ← Option.map_some, ih hnext,
      map_content_cons]
  | case6 depth rest hquotes ih =>
    rw [Option.map_none] at ih
    rw [Option.map_none, findClosing_codeChar hkind, if_neg hquotes, if_pos rfl, ih .none,
      map_content_cons]
  | case7 depth c rest hquotes hopen hc ih =>
    rw [Option.map_none] at ih
    rw [Option.map_none, findClosing_codeChar hkind, if_neg hquotes, if_neg hopen, if_pos hc,
      ih .none, map_content_cons]
  | case8 depth c rest hquotes hopen hclose hend =>
    rw [Option.map_none, findClosing_codeChar hkind, if_neg hquotes, if_neg hopen, if_neg hclose,
      if_pos hend, Option.map_some, Text.utf8Length_nil, Nat.add_zero]
  | case9 depth c rest hquotes hopen hclose hend ih =>
    rw [Option.map_none] at ih
    rw [Option.map_none, findClosing_codeChar hkind, if_neg hquotes, if_neg hopen, if_neg hclose,
      if_neg hend, ih .none, map_content_cons]

/-- The two searches for the end of a comment agree. -/
theorem findClosing_eq_commentEnd (pos : Nat) (cs : List Char) :
    findClosing .comment none 0 pos (Text.bytes cs) =
      (commentEnd cs).map fun f => pos + Text.utf8Length f.1 := by
  fun_induction commentEnd cs generalizing pos with
  | case1 rest => rw [findClosing_commentChar, if_pos ⟨rfl, rfl⟩]; rfl
  | case2 c rest hend ih =>
    have hne : ¬ (c = '#' ∧ rest.head? = some '\x7d') := by
      rintro ⟨hc, hrest⟩
      obtain ⟨tail, htail⟩ := List.head?_eq_some_iff.mp hrest
      exact hend tail hc htail
    rw [findClosing_commentChar, if_neg hne, ih, map_content_cons]
  | case3 => rfl

/-- Where a part ends. -/
theorem findClosing_contentIn (kind : Delimiter) (front cs : List Char) :
    findClosing kind none 0 (Text.utf8Length front)
        ((Text.bytes (front ++ cs)).drop (Text.utf8Length front)) =
      (kind.contentIn cs).map fun f => Text.utf8Length front + Text.utf8Length f.1 := by
  rw [Text.drop_bytes]
  cases kind with
  | comment => exact findClosing_eq_commentEnd _ cs
  | print => exact findClosing_eq (by decide) .none 0 _ cs
  | tag => exact findClosing_eq (by decide) .none 0 _ cs

/-! ## What cannot be a token -/

theorem quotedRun_broken {q : Char} {cs taken : List Char} (h : quotedRun q cs = .broken taken) :
    ∃ rest, cs = taken ++ rest := by
  have hprepend {front value : List Char} {run : QuotedRun} {taken : List Char}
      (h : run.prepend front value = .broken taken) :
      ∃ tail, run = .broken tail ∧ taken = front ++ tail := by
    cases run with
    | closed => cases h
    | broken tail =>
      cases h
      exact ⟨tail, rfl, rfl⟩
  fun_induction quotedRun q cs generalizing taken with
  | case1 =>
    cases h
    exact ⟨[], rfl⟩
  | case2 => cases h
  | case3 =>
    cases h
    exact ⟨_, rfl⟩
  | case4 =>
    cases h
    exact ⟨_, rfl⟩
  | case5 d rest _ _ ih =>
    obtain ⟨tail, htail, rfl⟩ := hprepend h
    obtain ⟨rest, rfl⟩ := ih htail
    exact ⟨rest, rfl⟩
  | case6 c rest _ _ ih =>
    obtain ⟨tail, htail, rfl⟩ := hprepend h
    obtain ⟨rest, rfl⟩ := ih htail
    exact ⟨rest, rfl⟩

theorem nextToken_refused {c : Char} {cs consumed : List Char}
    (h : nextToken c cs = .refused consumed) : ∃ rest, c :: cs = consumed ++ rest := by
  unfold nextToken at h
  split at h
  · cases h
  split at h
  · dsimp only at h
    split at h <;> cases h
  split at h
  · split at h
    · cases h
    · rename_i hbroken
      cases h
      obtain ⟨rest, rfl⟩ := quotedRun_broken hbroken
      exact ⟨rest, rfl⟩
  split at h
  · cases h
  · cases h
    exact ⟨cs, rfl⟩

/-- A fault in the code of a tag is about a slice of it. -/
theorem codeLexemes_error {start : Nat} {cs : List Char} {fault : Fault}
    (h : codeLexemes start cs = .error fault) :
    ∃ front piece rest, cs = front ++ (piece ++ rest) ∧
      fault = ⟨⟨start + Text.utf8Length front, start + Text.utf8Length front +
        Text.utf8Length piece⟩, .unexpectedText (String.ofList piece), []⟩ := by
  fun_induction codeLexemes start cs with
  | case1 => cases h
  | case2 start c rest hc ih =>
    obtain ⟨front, piece, tail, rfl, rfl⟩ := ih h
    refine ⟨c :: front, piece, tail, rfl, ?_⟩
    rw [Text.utf8Length_cons, Nat.add_assoc start c.utf8Size]
  | case3 start c rest hc consumed hnext =>
    cases h
    obtain ⟨tail, htail⟩ := nextToken_refused hnext
    exact ⟨[], consumed, tail, htail, rfl⟩
  | case4 start c rest hc t consumed after hnext stop ih =>
    obtain ⟨tail, rfl, rfl⟩ := nextToken_append hnext
    cases hafter : codeLexemes stop after with
    | ok found =>
      rw [hafter] at h
      cases h
    | error f =>
      rw [hafter] at h
      cases h
      obtain ⟨front, piece, rest, rfl, rfl⟩ := ih hafter
      refine ⟨(c :: tail) ++ front, piece, rest, by simp, ?_⟩
      rw [Text.utf8Length_append, ← Nat.add_assoc start]

/-- The slice for the message is there. -/
theorem lexCode_eq (code : List Char) (offset : Nat) :
    lexCode code offset = some (codeLexemes offset code) := by
  rw [lexCode]
  cases hcode : codeLexemes offset code with
  | ok found => rfl
  | error fault =>
    obtain ⟨front, piece, rest, rfl, rfl⟩ := codeLexemes_error hcode
    have hslice : Text.slice? (front ++ (piece ++ rest))
        (offset + Text.utf8Length front - offset)
        (offset + Text.utf8Length front + Text.utf8Length piece - offset) = some piece :=
      Text.slice?_eq_some.mpr ⟨front, rest, rfl, by omega, by omega⟩
    simp only [hslice, Option.bind_eq_bind, Option.bind_some]

/-! ## Agreement -/

/-- The tokens of a delimited part, from its place in the source. -/
theorem lexPart_eq (kind : Delimiter) (front content rest : List Char) :
    lexPart (front ++ '\x7b' :: kind.inner :: (content ++ rest)) kind (Text.utf8Length front)
        (Text.utf8Length front + 2 + Text.utf8Length content) =
      some (kind.part (Text.utf8Length front) content).lexemes := by
  have hslice : Text.slice? (front ++ '\x7b' :: kind.inner :: (content ++ rest))
      (Text.utf8Length front + 2) (Text.utf8Length front + 2 + Text.utf8Length content) =
        some content := by
    refine Text.slice?_eq_some.mpr ⟨front ++ ['\x7b', kind.inner], rest, by simp, ?_, rfl⟩
    rw [Text.utf8Length_append]
    cases kind <;> rfl
  cases kind with
  | comment => rfl
  | print =>
    simp only [lexPart, hslice, lexCode_eq, Option.bind_eq_bind, Option.bind_some]
    exact congrArg some (lexemes_code _ true content).symm
  | tag =>
    simp only [lexPart, hslice, lexCode_eq, Option.bind_eq_bind, Option.bind_some]
    exact congrArg some (lexemes_code _ false content).symm

theorem lexText_eq (front text rest : List Char) :
    lexText (front ++ (text ++ rest)) (Text.utf8Length front)
        (Text.utf8Length front + Text.utf8Length text) =
      some (textLexemes (Text.utf8Length front) text) := by
  rw [lexText, textLexemes]
  by_cases htext : text = []
  · subst htext
    rw [if_neg (by simp)]
    rfl
  · have hpos : Text.utf8Length text ≠ 0 := fun h => htext (Text.utf8Length_eq_zero.mp h)
    have hslice : Text.slice? (front ++ (text ++ rest)) (Text.utf8Length front)
        (Text.utf8Length front + Text.utf8Length text) = some text :=
      Text.slice?_eq_some.mpr ⟨front, rest, rfl, rfl, rfl⟩
    rw [if_pos (by omega), if_neg (by simpa using htext), hslice]
    rfl

/-- From a delimiter on: the text before it, the part that it opens, and what follows that. -/
theorem lexFrom_opening (front : List Char) {cs text body : List Char} {kind : Delimiter}
    (h : openingIn cs = (text, some (kind, body))) :
    lexFrom (front ++ cs) (Text.utf8Length front) =
      match kind.contentIn body with
      | none => some (.error ⟨⟨Text.utf8Length front + Text.utf8Length text,
          Text.utf8Length front + Text.utf8Length cs⟩, .unclosed kind, []⟩)
      | some (content, _) =>
        match (kind.part (Text.utf8Length front + Text.utf8Length text) content).lexemes with
        | .error fault => some (.error fault)
        | .ok part => (do
          let others ← lexFrom (front ++ cs) (Text.utf8Length front + Text.utf8Length text + 2 +
            Text.utf8Length content + 2)
          some (others.map fun rest =>
            textLexemes (Text.utf8Length front) text ++ part ++ rest)) := by
  have hcs : cs = text ++ '\x7b' :: kind.inner :: body := openingIn_append h
  have hpos : 0 < Text.utf8Length cs := by
    rw [hcs, Text.utf8Length_append, Text.utf8Length_cons, Text.utf8Length_cons,
      Delimiter.utf8Size_inner]
    omega
  have hopening : findOpening (front ++ cs) (Text.utf8Length front) =
      some (some (Text.utf8Length front + Text.utf8Length text, kind)) := by
    rw [findOpening_eq, openingAt, h, Option.map_some]
  have htext : lexText (front ++ cs) (Text.utf8Length front)
      (Text.utf8Length front + Text.utf8Length text) =
        some (textLexemes (Text.utf8Length front) text) := by
    rw [hcs, lexText_eq]
  have hopened : Text.utf8Length (front ++ text ++ ['\x7b', kind.inner]) =
      Text.utf8Length front + Text.utf8Length text + 2 := by
    rw [Text.utf8Length_append, Text.utf8Length_append]
    cases kind <;> rfl
  have hsource : front ++ text ++ ['\x7b', kind.inner] ++ body = front ++ cs := by
    rw [hcs]
    simp
  have hclosing := findClosing_contentIn kind (front ++ text ++ ['\x7b', kind.inner]) body
  rw [hopened, hsource] at hclosing
  rw [lexFrom_of_lt (by rw [Text.utf8Length_append]; omega), hopening]
  simp only [Option.bind_eq_bind, Option.bind_some, htext, hclosing, Text.utf8Length_append]
  cases hcontent : kind.contentIn body with
  | none => rfl
  | some found =>
    obtain ⟨content, rest⟩ := found
    have hbody : body = content ++ kind.closing :: '\x7d' :: rest :=
      Delimiter.contentIn_append hcontent
    have hpart := lexPart_eq kind (front ++ text) content (kind.closing :: '\x7d' :: rest)
    rw [← hbody, List.append_assoc, ← hcs, Text.utf8Length_append] at hpart
    simp only [Option.map_some, hpart, Option.bind_some]

/-- From the offset of a character on, both lexers find the same tokens. By induction on the parts of
    the source. -/
theorem lexFrom_eq (front cs : List Char) :
    lexFrom (front ++ cs) (Text.utf8Length front) =
      some (lexemesFrom (Text.utf8Length front) cs) := by
  induction cs using parts_induction generalizing front with
  | text cs text hopening =>
    by_cases hend : cs = []
    · subst hend
      rw [lexFrom.eq_1, if_neg (by simp), lexemesFrom_nil]
    have hpos : Text.utf8Length cs ≠ 0 := fun h => hend (Text.utf8Length_eq_zero.mp h)
    have hat : openingAt (Text.utf8Length front) cs = none := by
      rw [openingAt, hopening, Option.map_none]
    have hfrom : Text.from? (front ++ cs) (Text.utf8Length front) = some cs :=
      Text.from?_eq_some.mpr ⟨front, rfl, rfl⟩
    rw [lexFrom_of_lt (by rw [Text.utf8Length_append]; omega), findOpening_eq, hat,
      lexemesFrom_text hopening, textLexemes, if_neg (by simpa using hend)]
    simp only [Option.bind_eq_bind, Option.bind_some, hfrom, Text.utf8Length_append]
  | unclosed cs text kind body hopening hcontent =>
    rw [lexFrom_opening front hopening, hcontent, lexemesFrom_unclosed hopening hcontent]
  | part cs text kind body content rest hopening hcontent ih =>
    have hothers := ih (front ++ text ++ kind.enclose content)
    rw [List.append_assoc, List.append_assoc, ← eq_of_part hopening hcontent,
      utf8Length_part] at hothers
    rw [lexFrom_opening front hopening, hcontent, lexemesFrom_part hopening hcontent]
    simp only [hothers, Option.bind_eq_bind, Option.bind_some]
    cases (kind.part (Text.utf8Length front + Text.utf8Length text) content).lexemes with
    | error fault => rfl
    | ok part =>
      cases lexemesFrom (Text.utf8Length front + Text.utf8Length text + 2 +
        Text.utf8Length content + 2) rest <;> rfl

/-- The lexer that works on bytes never crashes, and it finds what `lexemes` finds. -/
theorem lex_eq (source : List Char) : lex source = some (lexemes source) :=
  lexFrom_eq [] source

end Syntax.Bytewise

end Stencil
