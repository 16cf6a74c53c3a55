/-!
# Double-precision numbers

A finite double is a sign, an integer significand below `2^53` and a power of two; `nearest` is the
double closest to an exact quotient, with ties to the even significand. Multiplication and division
round the exact result, so nothing here depends on machine arithmetic.

* `roundDiv_mul_le`, `le_roundDiv_mul`: a rounded quotient is within half a unit of the exact one.
-/

namespace Stencil

/-- A finite double: `significand · 2 ^ exponent`, negated if `negative`. Zero keeps its sign. -/
structure Double where
  negative : Bool
  significand : Nat
  exponent : Int
deriving DecidableEq, Repr, Inhabited

/-- The integer closest to `num / den`; of two equally close ones, the even one. -/
def roundDiv (num den : Nat) : Nat :=
  let q := num / den
  let r := num % den
  if den < 2 * r ∨ (2 * r = den ∧ q % 2 = 1) then q + 1 else q

theorem roundDiv_mul_le (num den : Nat) : 2 * (roundDiv num den * den) ≤ 2 * num + den := by
  have h := Nat.div_add_mod num den
  have hc : den * (num / den) = num / den * den := Nat.mul_comm _ _
  unfold roundDiv
  dsimp only
  split
  · rw [Nat.add_mul]; omega
  · omega

theorem le_roundDiv_mul (num : Nat) {den : Nat} (hd : 0 < den) :
    2 * num ≤ 2 * (roundDiv num den * den) + den := by
  have h := Nat.div_add_mod num den
  have hc : den * (num / den) = num / den * den := Nat.mul_comm _ _
  have hr := Nat.mod_lt num hd
  unfold roundDiv
  dsimp only
  split
  · rw [Nat.add_mul]; omega
  · omega

namespace Double

/-- The exponent of the smallest doubles. -/
def minExponent : Int := -1074

/-- The exponent of the largest doubles. -/
def maxExponent : Int := 971

/-- Zero with the given sign. -/
def zero (negative : Bool) : Double := ⟨negative, 0, minExponent⟩

/-- `num / den` divided by `2 ^ e`, again as a quotient. -/
def unscale (num den : Nat) (e : Int) : Nat × Nat :=
  if 0 ≤ e then (num, den * Nat.pow 2 e.toNat) else (num * Nat.pow 2 (-e).toNat, den)

/-- The double closest to `num / den` with the given sign, or `none` if it is too large. -/
def nearest (negative : Bool) (num den : Nat) : Option Double :=
  if num = 0 then some (zero negative)
  else
    let guess : Int := (num.log2 : Int) - (den.log2 : Int) - 52
    let trial := unscale num den guess
    let exponent := max (if trial.1 < trial.2 * Nat.pow 2 52 then guess - 1 else guess) minExponent
    let exact := unscale num den exponent
    let rounded := roundDiv exact.1 exact.2
    let carried := if rounded = Nat.pow 2 53 then (Nat.pow 2 52, exponent + 1) else (rounded, exponent)
    if maxExponent < carried.2 then none else some ⟨negative, carried.1, carried.2⟩

/-- The double closest to `digits · 10 ^ exponent`. Exponents far outside the range of doubles are
    answered without computing the power of ten. -/
def ofDecimal (negative : Bool) (digits : Nat) (exponent : Int) : Option Double :=
  if digits = 0 then some (zero negative)
  else if 400 < exponent then none
  else if exponent < -400 - (digits.log2 : Int) then some (zero negative)
  else if 0 ≤ exponent then nearest negative (digits * Nat.pow 10 exponent.toNat) 1
  else nearest negative digits (Nat.pow 10 (-exponent).toNat)

/-- The absolute value as a quotient of naturals. -/
def quotient (x : Double) : Nat × Nat :=
  if 0 ≤ x.exponent then (x.significand * Nat.pow 2 x.exponent.toNat, 1)
  else (x.significand, Nat.pow 2 (-x.exponent).toNat)

/-- The rounded product. -/
def mul (x y : Double) : Option Double :=
  nearest (x.negative != y.negative) (x.quotient.1 * y.quotient.1) (x.quotient.2 * y.quotient.2)

/-- The rounded quotient by a number other than zero. -/
def div (x y : Double) : Option Double :=
  nearest (x.negative != y.negative) (x.quotient.1 * y.quotient.2) (x.quotient.2 * y.quotient.1)

/-- The same number with the other sign. -/
def neg (x : Double) : Double := { x with negative := !x.negative }

/-- The value, if it is an integer. -/
def toInt? (x : Double) : Option Int :=
  let (num, den) := x.quotient
  if num % den = 0 then some (if x.negative then -((num / den : Nat) : Int) else (num / den : Nat))
  else none

end Double

end Stencil
