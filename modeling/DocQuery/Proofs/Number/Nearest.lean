import DocQuery.Number.Shortest
import Mathlib.Tactic.Ring

/-! Reading decimals as doubles depends on their value alone, and a shortest
decimal is read as the double it was made for. Fractions are compared by cross
multiplication, so the powers of two and of ten in the definitions are never
evaluated. -/
namespace DocQuery

namespace Decimal

/-- The decimal with zeros appended to its digits. Its value stays the same. -/
def extend (d : Decimal) (zeros : Nat) : Decimal :=
  ⟨d.digits * 10 ^ zeros, d.exponent - zeros⟩

theorem length_pos (n : Nat) : 0 < length n :=
  Nat.length_toDigits_pos

/-- A number is below the power of ten that has one digit more. -/
theorem lt_pow_length (n : Nat) : n < 10 ^ length n :=
  (Nat.length_toDigits_le_iff (by decide) (length_pos n)).mp (Nat.le_refl _)

theorem pow_length_le {n : Nat} (hn : 0 < n) : 10 ^ (length n - 1) ≤ n := by
  by_contra hLess
  have hLess : n < 10 ^ (length n - 1) := Nat.lt_of_not_le hLess
  by_cases hOne : length n = 1
  · rw [hOne] at hLess
    simp at hLess
    omega
  · have hPos := length_pos n
    have hLe := (Nat.length_toDigits_le_iff (b := 10) (by decide) (by omega)).mpr hLess
    change length n ≤ length n - 1 at hLe
    omega

end Decimal

namespace Double

/-- The least unit in the last place is two to the negative of this. It stays a
name, so that no power with this exponent is ever evaluated. -/
@[irreducible]
def unitExponent : Nat :=
  1074

theorem unitExponent_eq : unitExponent = 1074 := by
  rw [unitExponent]

private theorem pow_ten_pos (n : Nat) : 0 < 10 ^ n :=
  Nat.pow_pos (by decide)

/-- The step of the pattern is that of the fraction in least units. -/
theorem nearestPattern_eq (numerator denominator : Nat) :
    nearestPattern numerator denominator =
      ((numerator * 2 ^ unitExponent / denominator).log2 - 52) * 2 ^ 52 +
        roundQuotient (numerator * 2 ^ unitExponent)
          (denominator * 2 ^ ((numerator * 2 ^ unitExponent / denominator).log2 - 52)) := by
  simp only [nearestPattern, ← unitExponent_eq, Nat.pow_eq]

/-- A double is a whole number of `10 ^ -1074`, since two to that power divides
ten to it. -/
theorem decimalSize_eq (x : Double) : x.decimalSize = x.size * 5 ^ unitExponent := by
  rw [decimalSize, ← unitExponent_eq, Nat.pow_eq]

/-- Reading back, with the exponent by its name. -/
theorem readsBack_eq (x : Double) (dropped count : Nat) :
    x.readsBack dropped count =
      (nearest? x.negative (count * 10 ^ dropped) (10 ^ unitExponent) == some x) := by
  rw [readsBack, ← unitExponent_eq, Nat.pow_eq, Nat.pow_eq]

/-- Rounding depends on the value of the fraction alone. -/
theorem roundQuotient_mul (dividend divisor : Nat) {factor : Nat} (hf : 0 < factor) :
    roundQuotient (dividend * factor) (divisor * factor) = roundQuotient dividend divisor := by
  have hLess (a b : Nat) : a * factor < b * factor ↔ a < b := Nat.mul_lt_mul_right hf
  simp only [roundQuotient, Nat.mul_div_mul_right _ _ hf, Nat.mul_mod_mul_right,
    ← Nat.mul_assoc, hLess]

/-- A multiple of the divisor is divided exactly. -/
theorem roundQuotient_of_mul {quotient divisor : Nat} (hd : 0 < divisor) :
    roundQuotient (quotient * divisor) divisor = quotient := by
  simp [roundQuotient, Nat.mul_div_cancel _ hd, hd]

/-- The nearest pattern depends on the value of the fraction alone. -/
theorem nearestPattern_mul (numerator denominator : Nat) {factor : Nat} (hf : 0 < factor) :
    nearestPattern (numerator * factor) (denominator * factor) =
      nearestPattern numerator denominator := by
  have hScaled : numerator * factor * 2 ^ unitExponent = numerator * 2 ^ unitExponent * factor := by
    rw [Nat.mul_right_comm]
  have hStep (step : Nat) : denominator * factor * 2 ^ step = denominator * 2 ^ step * factor := by
    rw [Nat.mul_right_comm]
  simp only [nearestPattern_eq, hScaled, hStep, Nat.mul_div_mul_right _ _ hf,
    roundQuotient_mul _ _ hf]

/-- Equal fractions have the same nearest double. -/
theorem nearest?_eq_of_mul_eq (negative : Bool) {a b c d : Nat} (hb : 0 < b) (hd : 0 < d)
    (h : a * d = c * b) : nearest? negative a b = nearest? negative c d := by
  have hPattern : nearestPattern a b = nearestPattern c d := by
    rw [← nearestPattern_mul a b hd, ← nearestPattern_mul c d hb, h, Nat.mul_comm b d]
  simp only [nearest?, hPattern]

/-- The pattern is step and significand together: the step counts whole
multiples of `2 ^ 52`. -/
theorem pattern_eq (x : Double) : x.pattern = x.step * 2 ^ 52 + x.significand := by
  simp only [significand, step, Nat.pow_eq]
  omega

/-- A significand has at most fifty-three binary digits. -/
theorem significand_lt (x : Double) : x.significand < 2 ^ 53 := by
  simp only [significand, step, Nat.pow_eq]
  omega

/-- Once the step is positive the significand has all fifty-three. -/
theorem le_significand {x : Double} (h : 0 < x.step) : 2 ^ 52 ≤ x.significand := by
  simp only [significand, step, Nat.pow_eq] at h ⊢
  omega

/-- The step of a double can be told from its size. -/
theorem log2_size (x : Double) : x.size.log2 - 52 = x.step := by
  have hUpper : x.size < 2 ^ (53 + x.step) := by
    rw [size, Nat.pow_eq, Nat.pow_add]
    exact Nat.mul_lt_mul_of_pos_right x.significand_lt (Nat.pow_pos (by decide))
  by_cases hZero : x.size = 0
  · have hSignificand : x.significand = 0 := by
      rcases Nat.mul_eq_zero.mp hZero with h | h
      · exact h
      · exact absurd h (Nat.pos_iff_ne_zero.mp (Nat.pow_pos (by decide)))
    have hStep : ¬ 0 < x.step := fun h => by
      have hLower := le_significand h
      omega
    simp [hZero]
    omega
  · have hLog := (Nat.log2_lt hZero).mpr hUpper
    by_cases hStep : 0 < x.step
    · have hLower : 2 ^ (52 + x.step) ≤ x.size := by
        rw [size, Nat.pow_eq, Nat.pow_add]
        exact Nat.mul_le_mul_right _ (le_significand hStep)
      have hLe := (Nat.le_log2 hZero).mpr hLower
      omega
    · omega

/-- The exact value of a double is nearest to the double itself. -/
theorem nearest?_size (x : Double) : nearest? x.negative x.size (2 ^ unitExponent) = some x := by
  have hPos := Nat.two_pow_pos unitExponent
  have hPattern : nearestPattern x.size (2 ^ unitExponent) = x.pattern := by
    have hSize : x.size * 2 ^ unitExponent =
        x.significand * (2 ^ unitExponent * 2 ^ x.step) := by
      rw [size, Nat.pow_eq]
      ring
    rw [nearestPattern_eq, Nat.mul_div_cancel _ hPos, log2_size, hSize,
      roundQuotient_of_mul (Nat.mul_pos hPos (Nat.two_pow_pos _)), ← pattern_eq]
  simp [nearest?, hPattern, x.isFinite]

/-- The exact decimal value of a double is nearest to the double itself. -/
theorem nearest?_decimalSize (x : Double) :
    nearest? x.negative x.decimalSize (10 ^ unitExponent) = some x := by
  rw [← nearest?_size x]
  refine nearest?_eq_of_mul_eq _ (pow_ten_pos _) (Nat.two_pow_pos _) ?_
  rw [decimalSize_eq, Nat.mul_assoc, ← Nat.mul_pow]

/-- A fraction below a quarter of the least double is nearest to zero. -/
theorem nearest?_of_small (negative : Bool) {numerator denominator : Nat}
    (h : 2 * (numerator * 2 ^ unitExponent) < denominator) :
    nearest? negative numerator denominator = some ⟨negative, 0, by decide⟩ := by
  have hLess : numerator * 2 ^ unitExponent < denominator :=
    Nat.lt_of_le_of_lt (Nat.le_mul_of_pos_left _ (by decide)) h
  have hPattern : nearestPattern numerator denominator = 0 := by
    simp only [nearestPattern_eq, roundQuotient, Nat.div_eq_of_lt hLess, Nat.mod_eq_of_lt hLess,
      Nat.log2_zero, Nat.zero_sub, Nat.zero_mul, Nat.pow_zero, Nat.mul_one, h, if_true,
      Nat.zero_add]
  simp [nearest?, hPattern, limit]

/-- No finite double is nearest to a fraction from `2 ^ 1025` on. -/
theorem nearest?_of_large (negative : Bool) {numerator denominator power : Nat}
    (hd : 0 < denominator) (hPower : 1025 ≤ power) (h : 2 ^ power * denominator ≤ numerator) :
    nearest? negative numerator denominator = none := by
  have hQuotient : 2 ^ (power + unitExponent) ≤ numerator * 2 ^ unitExponent / denominator := by
    rw [Nat.le_div_iff_mul_le hd, Nat.pow_add, Nat.mul_right_comm]
    exact Nat.mul_le_mul_right _ h
  have hNonzero : numerator * 2 ^ unitExponent / denominator ≠ 0 :=
    Nat.pos_iff_ne_zero.mp (Nat.lt_of_lt_of_le (Nat.two_pow_pos _) hQuotient)
  have hLog := (Nat.le_log2 hNonzero).mpr hQuotient
  have hUnit := unitExponent_eq
  have hPattern : ¬ nearestPattern numerator denominator < limit := by
    rw [nearestPattern_eq, limit, Nat.pow_eq]
    omega
  simp [nearest?, hPattern]

/-- The fraction that a decimal stands for is read as its nearest double. The
bounds on the order of a decimal only save work: what they cut off is nearest to
zero, or nearest to no double. -/
theorem ofDecimal?_eq_nearest? (negative : Bool) (d : Decimal) :
    ofDecimal? negative d =
      nearest? negative (d.digits * 10 ^ d.exponent.toNat) (10 ^ (-d.exponent).toNat) := by
  by_cases hZero : d.digits = 0
  · simp only [ofDecimal?, hZero, true_or, if_true]
    exact (nearest?_of_small negative (by simp)).symm
  have hPos : 0 < d.digits := Nat.pos_of_ne_zero hZero
  have hLength := Decimal.length_pos d.digits
  by_cases hSmall : (Decimal.length d.digits : Int) + d.exponent < -400
  · have hWhole : d.exponent.toNat = 0 := by omega
    have hBound : 2 * (d.digits * 2 ^ unitExponent) < 10 ^ (-d.exponent).toNat := calc
      2 * (d.digits * 2 ^ unitExponent) = d.digits * 2 ^ (unitExponent + 1) := by
        rw [Nat.mul_left_comm, Nat.pow_succ']
      _ < 10 ^ Decimal.length d.digits * 2 ^ (unitExponent + 1) :=
        Nat.mul_lt_mul_of_pos_right (Decimal.lt_pow_length _) (Nat.two_pow_pos _)
      _ ≤ 10 ^ Decimal.length d.digits * 10 ^ 401 :=
        Nat.mul_le_mul_left _ (by decide +kernel)
      _ ≤ 10 ^ (-d.exponent).toNat := by
        rw [← Nat.pow_add]
        exact Nat.pow_le_pow_right (by decide) (by omega)
    simp only [ofDecimal?, hSmall, or_true, if_true, hWhole, Nat.pow_zero, Nat.mul_one]
    exact (nearest?_of_small negative hBound).symm
  by_cases hLarge : 310 < (Decimal.length d.digits : Int) + d.exponent
  · have hBound : 2 ^ 1025 * 10 ^ (-d.exponent).toNat ≤ d.digits * 10 ^ d.exponent.toNat := calc
      2 ^ 1025 * 10 ^ (-d.exponent).toNat ≤ 10 ^ 310 * 10 ^ (-d.exponent).toNat :=
        Nat.mul_le_mul_right _ (by decide +kernel)
      _ ≤ 10 ^ (Decimal.length d.digits - 1) * 10 ^ d.exponent.toNat := by
        rw [← Nat.pow_add, ← Nat.pow_add]
        exact Nat.pow_le_pow_right (by decide) (by omega)
      _ ≤ d.digits * 10 ^ d.exponent.toNat :=
        Nat.mul_le_mul_right _ (Decimal.pow_length_le hPos)
    simp only [ofDecimal?, hZero, hSmall, or_self, if_false, hLarge, if_true]
    exact (nearest?_of_large negative (pow_ten_pos _) (Nat.le_refl _) hBound).symm
  simp only [ofDecimal?, hZero, hSmall, or_self, if_false, hLarge]
  cases d.exponent with
  | ofNat exponent => simp
  | negSucc exponent => simp [Int.neg_negSucc]

/-- Zeros at the end of the digits do not change what a decimal is read as. -/
theorem ofDecimal?_extend (negative : Bool) (d : Decimal) (zeros : Nat) :
    ofDecimal? negative (d.extend zeros) = ofDecimal? negative d := by
  rw [ofDecimal?_eq_nearest?, ofDecimal?_eq_nearest?]
  refine nearest?_eq_of_mul_eq _ (pow_ten_pos _) (pow_ten_pos _) ?_
  simp only [Decimal.extend, Nat.mul_assoc, ← Nat.pow_add]
  congr 2
  omega

/-- A decimal that was found to read back does so. -/
theorem ofDecimal?_of_readsBack {x : Double} {dropped count : Nat}
    (h : x.readsBack dropped count = true) :
    ofDecimal? x.negative ⟨count, (dropped : Int) - 1074⟩ = some x := by
  rw [readsBack_eq, beq_iff_eq] at h
  rw [ofDecimal?_eq_nearest?, ← h]
  refine nearest?_eq_of_mul_eq _ (pow_ten_pos _) (pow_ten_pos _) ?_
  have hUnit := unitExponent_eq
  have hExponent : ((dropped : Int) - 1074).toNat + unitExponent =
      dropped + (-((dropped : Int) - 1074)).toNat := by omega
  simp only [Nat.mul_assoc, ← Nat.pow_add, hExponent]

/-- Whichever of two neighbours is better, it reads back. -/
theorem reads_of_better? {upperNearer : Bool} {reads : Nat → Bool} {lower count : Nat}
    (h : better? upperNearer (reads lower) (reads (lower + 1)) lower = some count) :
    reads count = true := by
  cases hLower : reads lower <;> cases hUpper : reads (lower + 1) <;>
    simp only [hLower, hUpper, better?, Option.some.injEq, reduceCtorEq] at h
  · exact h ▸ hUpper
  · exact h ▸ hLower
  · cases upperNearer
    · exact h ▸ hLower
    · exact h ▸ hUpper

/-- A decimal with some digits dropped reads back if it is accepted at all. -/
theorem ofDecimal?_of_rounded? {tieUp : Bool} {x : Double} {dropped : Nat} {d : Decimal}
    (h : x.rounded? tieUp dropped = some d) : ofDecimal? x.negative d = some x := by
  unfold rounded? at h
  obtain ⟨count, hCount, rfl⟩ := Option.map_eq_some_iff.mp h
  exact ofDecimal?_of_readsBack (reads_of_better? hCount)

/-- The shortest decimal of a double is read as that double. -/
theorem ofDecimal?_shortest (tieUp : Bool) (x : Double) :
    ofDecimal? x.negative (x.shortest tieUp) = some x := by
  simp only [shortest]
  cases hFound : (List.range 17).findSome? fun more =>
      x.rounded? tieUp (Decimal.length x.decimalSize - 1 - more) with
  | none =>
      rw [Option.getD_none]
      refine @ofDecimal?_of_readsBack x 0 x.decimalSize ?_
      rw [readsBack_eq, Nat.pow_zero, Nat.mul_one, nearest?_decimalSize, beq_self_eq_true]
  | some d =>
      obtain ⟨more, _, hRounded⟩ := List.exists_of_findSome?_eq_some hFound
      exact ofDecimal?_of_rounded? hRounded

end Double

end DocQuery
