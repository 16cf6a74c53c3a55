import Stencil.Decimal.Double
import Stencil.Toml.Fault

/-!
# Scalars without quotes

Numbers, booleans, dates and times. A scalar is a run of characters that is read as a whole.

Digits may be grouped by single underscores. A decimal integer has no leading zero; hexadecimal,
octal and binary ones have no sign. Integers fit 64 bits. A date may be followed by a time, and then
by the distance from universal time.
-/

namespace Stencil.Toml

/-- A scalar without quotes. -/
inductive Scalar where
  | bool (value : Bool)
  | integer (value : Int)
  /-- A float, unless it is infinite or not a number. -/
  | float (value : Option Double)
  | dateTime (text : String)
deriving Repr

namespace Scalar

/-! ## Numbers -/

/-- The digits of a run in which every underscore stands between two digits. The flag tells whether
    the last character was a digit. -/
def groupedAfter (isDigit : Char → Bool) : Bool → List Char → Option (List Char)
  | afterDigit, [] => if afterDigit then some [] else none
  | afterDigit, c :: rest =>
    if isDigit c then (groupedAfter isDigit true rest).map (c :: ·)
    else if c = '_' ∧ afterDigit then groupedAfter isDigit false rest
    else none

/-- The digits of a run. -/
def grouped (isDigit : Char → Bool) (run : List Char) : Option (List Char) :=
  groupedAfter isDigit false run

/-- The value of a digit of any base. -/
def digitValue (c : Char) : Nat :=
  if c.isDigit then c.toNat - '0'.toNat
  else if 'a' ≤ c ∧ c ≤ 'f' then c.toNat - 'a'.toNat + 10
  else if 'A' ≤ c ∧ c ≤ 'F' then c.toNat - 'A'.toNat + 10
  else 0

/-- The value of digits. -/
def digitsValue (base : Nat) (digits : List Char) : Nat :=
  digits.foldl (fun n d => n * base + digitValue d) 0

/-- An integer that fits 64 bits. -/
def bounded (n : Int) : Option Scalar :=
  if -(Nat.pow 2 63 : Int) ≤ n ∧ n < (Nat.pow 2 63 : Int) then some (.integer n) else none

/-- An integer of another base, after its mark. -/
def based (base : Nat) (isDigit : Char → Bool) (run : List Char) : Option Scalar := do
  let digits ← grouped isDigit run
  bounded (digitsValue base digits)

/-- A hexadecimal digit. -/
def isHexDigit (c : Char) : Bool :=
  c.isDigit || ('a' ≤ c && c ≤ 'f') || ('A' ≤ c && c ≤ 'F')

/-- The digits of a decimal integer: no zero leads others. -/
def decimalDigits (run : List Char) : Option (List Char) := do
  let digits ← grouped Char.isDigit run
  if digits.head? = some '0' ∧ run.length ≠ 1 then none else some digits

/-- A sign and what follows it. -/
def signed : List Char → Bool × List Char
  | '-' :: rest => (true, rest)
  | '+' :: rest => (false, rest)
  | run => (false, run)

/-- The part of a run that may be digits, and the rest. -/
def spanDigits (run : List Char) : List Char × List Char :=
  run.span fun c => c.isDigit || c == '_'

/-- The double of digits with a power of ten. Below zero it may be infinite. -/
def floatOf (negative : Bool) (digits : List Char) (exponent : Int) : Option Scalar :=
  match Double.ofDecimal negative (digitsValue 10 digits) exponent with
  | some x => some (.float (some x))
  | none => if negative then some (.float none) else none

/-- An exponent, after its letter. -/
def exponent (run : List Char) : Option Int := do
  let (negative, run) := signed run
  let digits ← grouped Char.isDigit run
  let n : Nat := digitsValue 10 digits
  some (if negative then -n else n)

/-- Whether a character marks an exponent. -/
def isExponentMark (c : Char) : Bool := c == 'e' || c == 'E'

/-- A decimal number without its sign. -/
def decimal (negative : Bool) (run : List Char) : Option Scalar := do
  let (whole, rest) := spanDigits run
  let digits ← decimalDigits whole
  match rest with
  | [] =>
    let n : Nat := digitsValue 10 digits
    bounded (if negative then -n else n)
  | '.' :: rest =>
    let (fraction, rest) := spanDigits rest
    let decimals ← grouped Char.isDigit fraction
    match rest with
    | [] => floatOf negative (digits ++ decimals) (-decimals.length)
    | c :: rest =>
      if isExponentMark c then
        let e ← exponent rest
        floatOf negative (digits ++ decimals) (e - decimals.length)
      else none
  | c :: rest =>
    if isExponentMark c then
      let e ← exponent rest
      floatOf negative digits e
    else none

/-! ## Dates and times -/

/-- The value of a run of exactly so many digits, if it is in a range. -/
def field (width low high : Nat) (run : List Char) : Option Nat :=
  let n := digitsValue 10 run
  if run.length = width ∧ run.all Char.isDigit ∧ low ≤ n ∧ n ≤ high then some n else none

/-- The number of days of a month. -/
def daysIn (year month : Nat) : Nat :=
  if month = 2 then
    if year % 4 = 0 ∧ (year % 100 ≠ 0 ∨ year % 400 = 0) then 29 else 28
  else if month = 4 ∨ month = 6 ∨ month = 9 ∨ month = 11 then 30
  else 31

/-- The text of a date, and the rest of the run. -/
def date (run : List Char) : Option (List Char × List Char) := do
  let text := run.take 10
  let year ← field 4 0 9999 (text.take 4)
  let month ← field 2 1 12 ((text.drop 5).take 2)
  let _ ← field 2 1 (daysIn year month) ((text.drop 8).take 2)
  if text[4]? = some '-' ∧ text[7]? = some '-' then some (text, run.drop 10) else none

/-- The text of a fraction of a second, with no more than nine digits and no zeros at its end. -/
def fraction (digits : List Char) : List Char :=
  match ((digits.take 9).reverse.dropWhile (· == '0')).reverse with
  | [] => []
  | shown => '.' :: shown

/-- The text of a time, and the rest of the run. -/
def time (run : List Char) : Option (List Char × List Char) := do
  let text := run.take 8
  let _ ← field 2 0 23 (text.take 2)
  let _ ← field 2 0 59 ((text.drop 3).take 2)
  let _ ← field 2 0 60 ((text.drop 6).take 2)
  if text[2]? = some ':' ∧ text[5]? = some ':' then
    match run.drop 8 with
    | '.' :: rest =>
      let digits := rest.takeWhile Char.isDigit
      if digits.isEmpty then none
      else some (text ++ fraction digits, rest.dropWhile Char.isDigit)
    | rest => some (text, rest)
  else none

/-- The text of the distance from universal time. No distance has the sign `-`. -/
def zone (run : List Char) : Option (List Char) :=
  match run with
  | [] => some []
  | ['Z'] => some ['Z']
  | ['z'] => some ['Z']
  | sign :: rest => do
    let hours ← field 2 0 23 (rest.take 2)
    let minutes ← field 2 0 59 (rest.drop 3)
    if (sign = '+' ∨ sign = '-') ∧ rest[2]? = some ':' then
      some ((if hours = 0 ∧ minutes = 0 then '+' else sign) :: rest)
    else none

/-- A date, a time, or both. -/
def dateTime? (run : List Char) : Option Scalar :=
  match date run with
  | some (day, []) => some (.dateTime (String.ofList day))
  | some (day, mark :: rest) => do
    let (clock, rest) ← time rest
    let distance ← zone rest
    if mark = 'T' ∨ mark = 't' ∨ mark = ' ' then
      some (.dateTime (String.ofList (day ++ 'T' :: (clock ++ distance))))
    else none
  | none =>
    match time run with
    | some (clock, []) => some (.dateTime (String.ofList clock))
    | _ => none

/-! ## All scalars -/

/-- A run that stands for a number of its own name. -/
def named? (run : List Char) : Option Scalar :=
  let (_, name) := signed run
  if name = ['i', 'n', 'f'] ∨ name = ['n', 'a', 'n'] then some (.float none) else none

/-- A number. -/
def number? : List Char → Option Scalar
  | '0' :: 'x' :: run => based 16 isHexDigit run
  | '0' :: 'o' :: run => based 8 (fun c => '0' ≤ c && c ≤ '7') run
  | '0' :: 'b' :: run => based 2 (fun c => c == '0' || c == '1') run
  | run =>
    let (negative, digits) := signed run
    decimal negative digits

/-- The scalar of a run. -/
def ofRun (run : List Char) : Option Scalar :=
  if run = ['t', 'r', 'u', 'e'] then some (.bool true)
  else if run = ['f', 'a', 'l', 's', 'e'] then some (.bool false)
  else named? run <|> dateTime? run <|> number? run

/-- Whether a run is a date that a time may follow after a space. -/
def isDate (run : List Char) : Bool :=
  match date run with
  | some (_, []) => true
  | _ => false

/-- Whether a character belongs to a run. -/
def inRun (c : Char) : Bool :=
  c.isAlphanum || c == '_' || c == '+' || c == '-' || c == '.' || c == ':'

end Scalar

end Stencil.Toml
