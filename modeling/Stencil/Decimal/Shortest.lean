import Stencil.Decimal.Double

/-!
# The shortest decimal that reads back

Every double is the nearest double to a whole interval of numbers. `Double.shortest` looks for a
multiple of a power of ten in that interval, from coarse powers to fine ones: the first power that
has a multiple there gives the fewest digits, and of its two neighbours of the exact value the
nearer one is taken.

`positional` and `scientific` write the digits that were found.
-/

namespace Stencil

/-- A positive decimal: `digits · 10 ^ exponent`. -/
structure Decimal where
  digits : Nat
  exponent : Int
deriving DecidableEq, Repr, Inhabited

/-- The numbers that round to one double, in units of a quarter of its last place: from `low` to
    `high`, the ends included if `closed`, around `mid`. The unit is `num / den`. -/
structure RoundingInterval where
  low : Nat
  mid : Nat
  high : Nat
  closed : Bool
  num : Nat
  den : Nat

namespace RoundingInterval

/-- The interval of a positive double. Below a power of two the spacing is half as wide. -/
def ofDouble (x : Double) : RoundingInterval :=
  let m := x.significand
  let narrow := m = Nat.pow 2 52 ∧ Double.minExponent < x.exponent
  let unit : Int := x.exponent - 2
  { low := if narrow then 4 * m - 1 else 4 * m - 2
    mid := 4 * m
    high := 4 * m + 2
    closed := m % 2 = 0
    num := if 0 ≤ unit then Nat.pow 2 unit.toNat else 1
    den := if 0 ≤ unit then 1 else Nat.pow 2 (-unit).toNat }

/-- Whether `a / b` units lie in the interval. -/
def holds (i : RoundingInterval) (a b : Nat) : Bool :=
  if i.closed then i.low * b ≤ a && a ≤ i.high * b else i.low * b < a && a < i.high * b

/-- The multiple of `10 ^ e` nearest to the middle, if one of the two around it is in the
    interval; of two equally near ones, the even one. -/
def onGrid (i : RoundingInterval) (e : Int) : Option Nat :=
  -- `d · 10 ^ e` is `d · a / b` units
  let a := i.den * (if 0 ≤ e then Nat.pow 10 e.toNat else 1)
  let b := i.num * (if 0 ≤ e then 1 else Nat.pow 10 (-e).toNat)
  let below := i.mid * b / a
  let above := below + 1
  let hitBelow := i.holds (below * a) b
  let hitAbove := i.holds (above * a) b
  let toBelow := i.mid * b - below * a
  let toAbove := above * a - i.mid * b
  if hitBelow && (!hitAbove || toBelow < toAbove || (toBelow == toAbove && below % 2 == 0)) then
    some below
  else if hitAbove then some above
  else none

/-- The first hit on the grids `10 ^ e`, `10 ^ (e - 1)`, … -/
def firstOnGrid (i : RoundingInterval) : Nat → Int → Decimal
  | 0, e => ⟨i.mid, e⟩
  | n + 1, e =>
    match i.onGrid e with
    | some d => ⟨d, e⟩
    | none => i.firstOnGrid n (e - 1)

end RoundingInterval

namespace Double

/-- The decimal with the fewest digits that reads back as the absolute value of a double other
    than zero. -/
def shortest (x : Double) : Decimal :=
  let top : Int := ((x.significand.log2 : Int) + x.exponent + 1) * 30103 / 100000 + 1
  (RoundingInterval.ofDouble x).firstOnGrid 24 top

end Double

namespace Decimal

/-- The digits as text. -/
def digitText (d : Decimal) : List Char := Nat.toDigits 10 d.digits

/-- The exponent of the first digit. -/
def leading (d : Decimal) : Int := d.exponent + d.digitText.length - 1

/-- Digits around a point, without exponent: `0.001`, `12.5`, `100`. -/
def positional (d : Decimal) : List Char :=
  let ds := d.digitText
  if 0 ≤ d.exponent then ds ++ List.replicate d.exponent.toNat '0'
  else
    let places := (-d.exponent).toNat
    if ds.length ≤ places then '0' :: '.' :: (List.replicate (places - ds.length) '0' ++ ds)
    else ds.take (ds.length - places) ++ '.' :: ds.drop (ds.length - places)

/-- One digit before the point and a signed exponent: `1.25e+17`, `1e-6`. -/
def scientific (d : Decimal) : List Char :=
  let e := d.leading
  let exponent := (if e < 0 then ['e', '-'] else ['e', '+']) ++ Nat.toDigits 10 e.natAbs
  match d.digitText with
  | [] => exponent
  | [c] => c :: exponent
  | c :: cs => c :: '.' :: (cs ++ exponent)

end Decimal

end Stencil
