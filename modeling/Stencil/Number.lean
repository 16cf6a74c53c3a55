import Stencil.Decimal.Shortest

/-!
# Numbers

A number is an integer or a finite double. `Number.text` is how a number is printed and written to
JSON; `Double.plainText` is the notation without exponent that describes a numeral.
-/

namespace Stencil

/-- A number of a context or a template. -/
inductive Number where
  | integer (value : Int)
  | double (value : Double)
deriving DecidableEq, Repr, Inhabited

namespace Double

/-- The text of a double in JSON: positional, always with a fraction, while the first digit stands
    for `10 ^ -5` to `10 ^ 15`, and with an exponent otherwise. -/
def jsonText (x : Double) : List Char :=
  let sign := if x.negative then ['-'] else []
  if x.significand = 0 then sign ++ ['0', '.', '0']
  else
    let d := x.shortest
    if -5 ≤ d.leading ∧ d.leading ≤ 15 then
      sign ++ d.positional ++ (if 0 ≤ d.exponent then ['.', '0'] else [])
    else sign ++ d.scientific

/-- The text of a double without exponent and without a fraction of zero. -/
def plainText (x : Double) : List Char :=
  let sign := if x.negative then ['-'] else []
  if x.significand = 0 then sign ++ ['0'] else sign ++ x.shortest.positional

end Double

namespace Number

/-- The text a number is printed as. -/
def text : Number → String
  | .integer n => toString n
  | .double x => String.ofList x.jsonText

/-- The number a numeral of a template stands for (`number_value`): an integer if the double is
    integral and below `2 ^ 63` in size, the double otherwise. -/
def ofNumeral (x : Double) : Number :=
  match x.toInt? with
  | some n => if n.natAbs < Nat.pow 2 63 then .integer n else .double x
  | none => .double x

end Number

end Stencil
