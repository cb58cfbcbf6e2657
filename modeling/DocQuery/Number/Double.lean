import DocQuery.Number.Decimal
/-!
Finite binary64 numbers in exact arithmetic. The bits of such a number without its sign form a
natural number, its pattern, and patterns are ordered as the sizes they stand for: size 0 is
pattern 0, and a step of one in the pattern is a step of one unit in the last place. Every size is
a whole number of `2 ^ -1074`, and that number is what comparison uses. Powers are written with
`Nat.pow`, which is one term whatever instances of powers are in scope.
-/
namespace DocQuery

/-- The pattern from which on there are no finite numbers. -/
def Double.limit : Nat :=
  2047 * Nat.pow 2 52

/-- A finite binary64 number: its sign and the pattern of its exponent and
fraction bits. -/
structure Double where
  negative : Bool
  pattern : Nat
  isFinite : pattern < Double.limit
  deriving DecidableEq

namespace Double

instance : Repr Double where
  reprPrec x _ := repr (x.negative, x.pattern)

def zero : Double :=
  ⟨false, 0, by decide⟩

instance : Inhabited Double where
  default := zero

/-- The unit in the last place is `2 ^ (step - 1074)`. -/
def step (x : Double) : Nat :=
  x.pattern / Nat.pow 2 52 - 1

/-- The size in units in the last place. -/
def significand (x : Double) : Nat :=
  x.pattern - x.step * Nat.pow 2 52

/-- The size in units of `2 ^ -1074`. -/
def size (x : Double) : Nat :=
  x.significand * Nat.pow 2 x.step

/-- The value in units of `2 ^ -1074`. -/
def units (x : Double) : Int :=
  if x.negative then -(x.size : Int) else x.size

/-- Numerical equality; the two zeros are equal. -/
def equal (x y : Double) : Bool :=
  x.units == y.units

def order (x y : Double) : Ordering :=
  compare x.units y.units

/-- The quotient rounded to the nearest whole number, halves to the even one. -/
def roundQuotient (dividend divisor : Nat) : Nat :=
  let quotient := dividend / divisor
  let twice := 2 * (dividend % divisor)
  if twice < divisor then quotient
  else if divisor < twice then quotient + 1
  else quotient + quotient % 2

/-- The pattern of the double nearest to a positive fraction, halves to the even
pattern. The unit in the last place is the least one of which the fraction holds
fewer than `2 ^ 53`. -/
def nearestPattern (numerator denominator : Nat) : Nat :=
  let scaled := numerator * Nat.pow 2 1074
  let step := (scaled / denominator).log2 - 52
  step * Nat.pow 2 52 + roundQuotient scaled (denominator * Nat.pow 2 step)

/-- The double nearest to a fraction; none when the fraction is beyond the
largest double. -/
def nearest? (negative : Bool) (numerator denominator : Nat) : Option Double :=
  let pattern := nearestPattern numerator denominator
  if hFinite : pattern < limit then some ⟨negative, pattern, hFinite⟩ else none

def largest (negative : Bool) : Double :=
  ⟨negative, limit - 1, by decide⟩

def ofInt (n : Int) : Double :=
  (nearest? (decide (n < 0)) n.natAbs 1).getD (largest (decide (n < 0)))

/-- The double nearest to a decimal; none when the decimal is too large. A
decimal below `10 ^ -400` is nearest to zero and one from `10 ^ 310` on is too
large, whatever its digits. -/
def ofDecimal? (negative : Bool) (d : Decimal) : Option Double :=
  let order := (Decimal.length d.digits : Int) + d.exponent
  if d.digits = 0 ∨ order < -400 then some ⟨negative, 0, by decide⟩
  else if 310 < order then none
  else match d.exponent with
    | .ofNat exponent => nearest? negative (d.digits * Nat.pow 10 exponent) 1
    | .negSucc exponent => nearest? negative d.digits (Nat.pow 10 (exponent + 1))

end Double

end DocQuery
