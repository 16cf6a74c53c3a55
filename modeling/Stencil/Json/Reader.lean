import Stencil.Text.Cursor
import Stencil.Value

/-!
# Reading JSON

`read` reads one value from a JSON text, or says what is wrong and where. A number without fraction
and exponent that fits 64 bits stays an integer; any other number becomes a double by scaling its
first digits, those that fit 64 bits, with a rounded power of ten.

Arrays and mappings nest less than 128 deep.
-/

namespace Stencil.Json

/-! ## Faults -/

/-- What can be wrong with a JSON text. -/
inductive Cause where
  | endInList
  | endInObject
  | endInString
  | endInValue
  | expectedColon
  | expectedListEnd
  | expectedObjectEnd
  | expectedIdent
  | expectedValue
  | invalidEscape
  | invalidNumber
  | numberOutOfRange
  | controlCharacter
  | keyNotString
  | loneSurrogate
  | trailingComma
  | trailingCharacters
  | endOfEscape
  | tooDeep
deriving DecidableEq, Repr

/-- The wording of a cause. -/
def Cause.message : Cause → String
  | .endInList => "EOF while parsing a list"
  | .endInObject => "EOF while parsing an object"
  | .endInString => "EOF while parsing a string"
  | .endInValue => "EOF while parsing a value"
  | .expectedColon => "expected \x60:\x60"
  | .expectedListEnd => "expected \x60,\x60 or \x60]\x60"
  | .expectedObjectEnd => "expected \x60,\x60 or \x60\x7d\x60"
  | .expectedIdent => "expected ident"
  | .expectedValue => "expected value"
  | .invalidEscape => "invalid escape"
  | .invalidNumber => "invalid number"
  | .numberOutOfRange => "number out of range"
  | .controlCharacter =>
    "control character (\\u0000-\\u001F) found while parsing a string"
  | .keyNotString => "key must be a string"
  | .loneSurrogate => "lone leading surrogate in hex escape"
  | .trailingComma => "trailing comma"
  | .trailingCharacters => "trailing characters"
  | .endOfEscape => "unexpected end of hex escape"
  | .tooDeep => "recursion limit exceeded"

/-- A cause and the byte offset at which it is reported. -/
structure Fault where
  cause : Cause
  offset : Nat
deriving DecidableEq, Repr

/-- The line, from one, and the column, in bytes of that line before the offset. -/
def lineColumn (source : List Char) (offset : Nat) : Nat × Nat :=
  go source 0 1 0
where
  /-- Walks to the offset, keeping the line and the start of the line. -/
  go : List Char → Nat → Nat → Nat → Nat × Nat
    | [], _, line, lineStart => (line, offset - lineStart)
    | c :: cs, at_, line, lineStart =>
      if offset ≤ at_ then (line, offset - lineStart)
      else if c = '\n' then go cs (at_ + 1) (line + 1) (at_ + 1)
      else go cs (at_ + c.utf8Size) line lineStart

/-- The text of a fault. -/
def Fault.message (source : List Char) (f : Fault) : String :=
  let (line, column) := lineColumn source f.offset
  s!"{f.cause.message} at line {line} column {column}"

/-! ## The cursor -/

/-- A step that reads from a JSON text. -/
abbrev Reading (α : Type) := Text.Reading Fault α

open Text.Reading (peek skip takeWhile)

/-- Fails at the cursor. -/
def failHere {α : Type} (cause : Cause) : Reading α := fun c => .error ⟨cause, c.offset⟩

/-- Fails just past the first byte at the cursor, which is the byte looked at. -/
def failAhead {α : Type} (cause : Cause) : Reading α := fun c =>
  .error ⟨cause, if c.rest.isEmpty then c.offset else c.offset + 1⟩

/-- Moves past blanks and looks at the next character. -/
def peekPastBlanks : Reading (Option Char) := do
  let _ ← takeWhile fun c => c == ' ' || c == '\n' || c == '\t' || c == '\r'
  peek

/-! ## Numbers -/

/-- The power of ten as a double, up to `10 ^ 308`. -/
def powerOfTen (n : Nat) : Option Double :=
  if n ≤ 308 then Double.ofDecimal false 1 n else none

/-- `significand · 10 ^ exponent` by at most three rounded operations; `none` if it is too large. -/
def scaled (negative : Bool) (significand : Nat) (exponent : Int) : Option Double := do
  let magnitude ← Double.ofDecimal false significand 0
  let result ← go magnitude exponent 3
  pure { result with negative := negative }
where
  /-- Divides by `10 ^ 308` until the exponent is in range. -/
  go (x : Double) (e : Int) : Nat → Option Double
    | 0 => some (Double.zero false)
    | n + 1 =>
      match powerOfTen e.natAbs with
      | some p => if 0 ≤ e then x.mul p else x.div p
      | none =>
        if x.significand = 0 then some x
        else if 0 ≤ e then none
        else
          match powerOfTen 308 with
          | some p => (x.div p).bind fun y => go y (e + 308) n
          | none => none

/-- A number read so far: its sign, its digits as far as they fit 64 bits, and the power of ten
    that the digits are multiplied with. -/
structure Unfinished where
  negative : Bool
  significand : Nat
  exponent : Int

/-- The double of a number that has been read completely. -/
def Unfinished.finish (p : Unfinished) : Reading Number :=
  match scaled p.negative p.significand p.exponent with
  | some x => pure (.double x)
  | none => failHere .numberOutOfRange

/-- The largest significand that is kept. -/
def maxSignificand : Nat := Nat.pow 2 64 - 1

/-- The value of a decimal digit. -/
def digitValue (c : Char) : Nat := c.toNat - 48

/-- Appends digits while they fit; answers the significand and how many digits were appended and
    how many were left over. -/
def appendDigits (significand : Nat) : List Char → Nat × Nat × Nat
  | [] => (significand, 0, 0)
  | d :: ds =>
    let next := significand * 10 + digitValue d
    if maxSignificand < next then (significand, 0, ds.length + 1)
    else
      let (s, taken, left) := appendDigits next ds
      (s, taken + 1, left)

/-- The value of an exponent, or `none` from `2 ^ 31` on, with the digits read until then. -/
def exponentValue (digits : List Char) : Option Nat :=
  let n := digits.foldl (fun n d => n * 10 + digitValue d) 0
  if n < Nat.pow 2 31 then some n else none

/-- An exponent, after the letter. -/
def readExponent (p : Unfinished) : Reading Number := do
  skip
  let sign ← peek
  if sign == some '+' || sign == some '-' then skip
  match ← peek with
  | none => failHere .endInValue
  | some c =>
    if !c.isDigit then failAhead .invalidNumber
    else
      let digits ← takeWhile Char.isDigit
      match exponentValue digits with
      | some n =>
        let e : Int := if sign == some '-' then p.exponent - n else p.exponent + n
        Unfinished.finish { p with exponent := e }
      | none =>
        if p.significand ≠ 0 && sign != some '-' then failHere .numberOutOfRange
        else pure (.double (Double.zero p.negative))

/-- A fraction, from the point on. -/
def readFraction (p : Unfinished) : Reading Number := do
  skip
  let digits ← takeWhile Char.isDigit
  if digits.isEmpty then
    match ← peek with
    | some _ => failAhead .invalidNumber
    | none => failAhead .endInValue
  else
    let (significand, taken, _) := appendDigits p.significand digits
    let p := { p with significand := significand, exponent := p.exponent - taken }
    match ← peek with
    | some 'e' => readExponent p
    | some 'E' => readExponent p
    | _ => p.finish

/-- What follows the integer part. -/
def readTail (p : Unfinished) (whole : Bool) : Reading Number := do
  match ← peek with
  | some '.' => readFraction p
  | some 'e' => readExponent p
  | some 'E' => readExponent p
  | _ =>
    if !whole then p.finish
    else if p.negative then
      if p.significand = 0 || Nat.pow 2 63 < p.significand then p.finish
      else pure (.integer (-(p.significand : Int)))
    else pure (.integer p.significand)

/-- A number after its sign. -/
def readNumber (negative : Bool) : Reading Number := do
  match ← peek with
  | none => failHere .endInValue
  | some '0' =>
    skip
    match ← peek with
    | some c =>
      if c.isDigit then failAhead .invalidNumber else readTail ⟨negative, 0, 0⟩ true
    | none => readTail ⟨negative, 0, 0⟩ true
  | some c =>
    if !c.isDigit then failAhead .invalidNumber
    else
      let digits ← takeWhile Char.isDigit
      let (significand, _, left) := appendDigits 0 digits
      readTail ⟨negative, significand, left⟩ (left == 0)

/-! ## Strings -/

/-- The value of a hexadecimal digit. -/
def hexValue (c : Char) : Option Nat :=
  if c.isDigit then some (c.toNat - 48)
  else if 'a' ≤ c ∧ c ≤ 'f' then some (c.toNat - 87)
  else if 'A' ≤ c ∧ c ≤ 'F' then some (c.toNat - 55)
  else none

/-- The four digits of an escape; the cursor moves four bytes on. -/
def readHex : Reading Nat := fun c =>
  match c.rest with
  | a :: b :: d :: e :: rest =>
    match hexValue a, hexValue b, hexValue d, hexValue e with
    | some w, some x, some y, some z =>
      .ok (((w * 16 + x) * 16 + y) * 16 + z, ⟨rest, c.offset + 4⟩)
    | _, _, _, _ => .error ⟨.invalidEscape, c.offset + 4⟩
  | short =>
    let left := Text.utf8Length short
    if left < 4 then .error ⟨.endInString, c.offset + left⟩
    else .error ⟨.invalidEscape, c.offset + 4⟩

/-- Expects a character inside an escape of two halves. -/
def expectInEscape (wanted : Char) : Reading Unit := do
  match ← peek with
  | none => failHere .endInString
  | some c =>
    if c = wanted then skip else failAhead .endOfEscape

/-- The character of a `u` escape; a character above `U+FFFF` takes two of them. -/
def readUnicode : Reading Char := do
  let high ← readHex
  if 0xDC00 ≤ high ∧ high ≤ 0xDFFF then failHere .loneSurrogate
  else if 0xD800 ≤ high ∧ high ≤ 0xDBFF then
    expectInEscape '\\'
    expectInEscape 'u'
    let low ← readHex
    if low < 0xDC00 ∨ 0xDFFF < low then failHere .loneSurrogate
    else pure (Char.ofNat ((high - 0xD800) * 0x400 + (low - 0xDC00) + 0x10000))
  else pure (Char.ofNat high)

/-- The character that a letter after a backslash stands for. -/
def simpleEscape (c : Char) : Option Char :=
  if c = '"' ∨ c = '\\' ∨ c = '/' then some c
  else if c = 'b' then some '\x08'
  else if c = 'f' then some '\x0c'
  else if c = 'n' then some '\n'
  else if c = 'r' then some '\r'
  else if c = 't' then some '\t'
  else none

/-- The character of an escape, after the backslash. -/
def readEscape : Reading Char := do
  match ← peek with
  | none => failHere .endInString
  | some 'u' =>
    skip
    readUnicode
  | some c =>
    match simpleEscape c with
    | some x =>
      skip
      pure x
    | none => failAhead .invalidEscape

/-- The characters of a string up to the closing quote. The first argument bounds their number. -/
def readChars : Nat → List Char → Reading (List Char)
  | 0, _ => failHere .endInString
  | n + 1, acc => do
    match ← peek with
    | none => failHere .endInString
    | some c =>
      skip
      if c = '"' then pure acc.reverse
      else if c = '\\' then
        let x ← readEscape
        readChars n (x :: acc)
      else if c.toNat < 0x20 then failHere .controlCharacter
      else readChars n (c :: acc)

/-- A string after its opening quote. -/
def readString : Reading String := fun c =>
  (do
    let cs ← readChars (c.rest.length + 1) []
    pure (String.ofList cs) : Reading String) c

/-! ## Values -/

/-- Expects the remaining letters of a word. -/
def expectLetters : List Char → Reading Unit
  | [] => pure ()
  | x :: xs => do
    match ← peek with
    | none => failHere .endInValue
    | some c =>
      if c = x then
        skip
        expectLetters xs
      else failAhead .expectedIdent

/-- The items of an array, after the opening bracket. -/
def readItems (item : Reading Value) : Nat → Bool → List Value → Reading (List Value)
  | 0, _, _ => failHere .endInList
  | n + 1, first, acc => do
    match ← peekPastBlanks with
    | none => failAhead .endInList
    | some c =>
      if c = ']' then
        skip
        pure acc.reverse
      else if first then
        let v ← item
        readItems item n false (v :: acc)
      else if c = ',' then
        skip
        match ← peekPastBlanks with
        | none => failAhead .endInValue
        | some d =>
          if d = ']' then failAhead .trailingComma
          else
            let v ← item
            readItems item n false (v :: acc)
      else failAhead .expectedListEnd

/-- A field: its key from the quote on, the colon and its value. -/
def readField (item : Reading Value) : Reading (String × Value) := do
  skip
  let key ← readString
  match ← peekPastBlanks with
  | none => failAhead .endInObject
  | some c =>
    if c = ':' then
      skip
      let v ← item
      pure (key, v)
    else failAhead .expectedColon

/-- The fields of a mapping, after the opening brace; a later field replaces an earlier one. -/
def readFields (item : Reading Value) : Nat → Bool → Dict Value → Reading (Dict Value)
  | 0, _, _ => failHere .endInObject
  | n + 1, first, acc => do
    match ← peekPastBlanks with
    | none => failAhead .endInObject
    | some c =>
      if c = '}' then
        skip
        pure acc
      else if first then
        if c = '"' then
          let (k, v) ← readField item
          readFields item n false (Dict.insert acc k v)
        else failAhead .keyNotString
      else if c = ',' then
        skip
        match ← peekPastBlanks with
        | none => failAhead .endInValue
        | some d =>
          if d = '"' then
            let (k, v) ← readField item
            readFields item n false (Dict.insert acc k v)
          else if d = '}' then failAhead .trailingComma
          else failAhead .keyNotString
      else failAhead .expectedObjectEnd

/-- One value; the argument is how deep arrays and mappings may still nest. -/
def readValue : Nat → Reading Value
  | 0 => failAhead .tooDeep
  | depth + 1 => do
    match ← peekPastBlanks with
    | none => failAhead .endInValue
    | some c =>
      if c = 'n' then
        skip
        expectLetters ['u', 'l', 'l']
        pure .null
      else if c = 't' then
        skip
        expectLetters ['r', 'u', 'e']
        pure (.bool true)
      else if c = 'f' then
        skip
        expectLetters ['a', 'l', 's', 'e']
        pure (.bool false)
      else if c = '-' then
        skip
        let n ← readNumber true
        pure (.number n)
      else if c.isDigit then
        let n ← readNumber false
        pure (.number n)
      else if c = '"' then
        skip
        let s ← readString
        pure (.string s)
      else if c = '[' then
        if depth = 0 then failAhead .tooDeep
        else
          skip
          fun cur => (do
            let items ← readItems (readValue depth) (cur.rest.length + 1) true []
            pure (Value.array items) : Reading Value) cur
      else if c = '{' then
        if depth = 0 then failAhead .tooDeep
        else
          skip
          fun cur => (do
            let fields ← readFields (readValue depth) (cur.rest.length + 1) true []
            pure (Value.mapping fields) : Reading Value) cur
      else failAhead .expectedValue

/-- The nesting that is refused. -/
def maxDepth : Nat := 128

/-- Reads a text that holds one value and blanks around it. -/
def read (source : List Char) : Except Fault Value :=
  let whole : Reading Value := do
    let v ← readValue maxDepth
    match ← peekPastBlanks with
    | none => pure v
    | some _ => failAhead .trailingCharacters
  (whole ⟨source, 0⟩).map (·.1)

end Stencil.Json
