import DocQuery.Proofs.Number.Nearest
import Mathlib.Data.Int.Order.Basic

/-! Whole numbers as doubles. The double nearest to a whole number holds its
first 53 binary digits, rounded, so rounding says which whole numbers are
one double. It keeps the order of the numbers, and up to `2 ^ 53` it changes
none. -/
namespace DocQuery.Double

section Quotients

variable {a b divisor : Nat}

/-- A quotient is rounded down or up, and never by more than a half. -/
theorem roundQuotient_cases (dividend divisor : Nat) :
    roundQuotient dividend divisor = dividend / divisor ∧
        2 * (dividend % divisor) ≤ divisor ∨
      roundQuotient dividend divisor = dividend / divisor + 1 ∧
        divisor ≤ 2 * (dividend % divisor) := by
  rw [roundQuotient]
  split
  · exact Or.inl ⟨rfl, by omega⟩
  · split
    · exact Or.inr ⟨rfl, by omega⟩
    · rcases Nat.mod_two_eq_zero_or_one (dividend / divisor) with hEven | hOdd
      · exact Or.inl ⟨by rw [hEven, Nat.add_zero], by omega⟩
      · exact Or.inr ⟨by rw [hOdd], by omega⟩

/-- Rounding does not fall below a whole number that the quotient reaches. -/
theorem le_roundQuotient (hd : 0 < divisor) {quotient : Nat} (h : quotient * divisor ≤ a) :
    quotient ≤ roundQuotient a divisor := by
  have hQuotient := (Nat.le_div_iff_mul_le hd).mpr h
  rcases roundQuotient_cases a divisor with ⟨hSame, _⟩ | ⟨hUp, _⟩
  · omega
  · omega

/-- Rounding does not rise above a whole number that the quotient does not
exceed. -/
theorem roundQuotient_le (hd : 0 < divisor) {quotient : Nat} (h : a ≤ quotient * divisor) :
    roundQuotient a divisor ≤ quotient := by
  by_cases hExact : a = quotient * divisor
  · rw [hExact, roundQuotient_of_mul hd]
  · have hQuotient := (Nat.div_lt_iff_lt_mul hd).mpr (Nat.lt_of_le_of_ne h hExact)
    rcases roundQuotient_cases a divisor with ⟨hSame, _⟩ | ⟨hUp, _⟩
    · omega
    · omega

/-- Larger numbers are not rounded to smaller quotients. -/
theorem roundQuotient_mono (hd : 0 < divisor) (h : a ≤ b) :
    roundQuotient a divisor ≤ roundQuotient b divisor := by
  have hA := Nat.div_add_mod a divisor
  have hB := Nat.div_add_mod b divisor
  rcases Nat.eq_or_lt_of_le (Nat.div_le_div_right h : a / divisor ≤ b / divisor) with hSame | hLess
  · rw [roundQuotient, roundQuotient]
    rw [hSame] at hA ⊢
    have hRest : a % divisor ≤ b % divisor := by omega
    split_ifs <;> omega
  · have hBelow : a < b / divisor * divisor :=
      Nat.lt_of_lt_of_le (Nat.lt_mul_of_div_lt hLess hd) (Nat.le_refl _)
    exact Nat.le_trans (roundQuotient_le hd (Nat.le_of_lt hBelow))
      (le_roundQuotient hd (Nat.div_mul_le_self b divisor))

end Quotients

/-- A natural number rounded to its first 53 binary digits, halves to the even
one. -/
def roundWhole (n : Nat) : Nat :=
  roundQuotient n (2 ^ (n.log2 - 52)) * 2 ^ (n.log2 - 52)

/-- A whole number rounded to its first 53 binary digits. -/
def roundInt (n : Int) : Int :=
  n.sign * roundWhole n.natAbs

/-- A factor of two moves the first binary digit by one place. -/
theorem log2_mul_two_pow {n : Nat} (h : n ≠ 0) (k : Nat) : (n * 2 ^ k).log2 = n.log2 + k := by
  have hPos := Nat.two_pow_pos k
  rw [Nat.log2_eq_iff (Nat.mul_ne_zero h (Nat.pos_iff_ne_zero.mp hPos)), Nat.pow_add,
    Nat.add_right_comm, Nat.pow_add]
  exact ⟨Nat.mul_le_mul_right _ (Nat.log2_self_le h),
    Nat.mul_lt_mul_of_pos_right Nat.lt_log2_self hPos⟩

/-- A number whose digits beyond the fifty-third are zeros is not rounded. -/
theorem roundWhole_of_dvd {n : Nat} (h : 2 ^ (n.log2 - 52) ∣ n) : roundWhole n = n := by
  obtain ⟨quotient, hQuotient⟩ := h
  have hRound := @roundQuotient_of_mul quotient (2 ^ (n.log2 - 52)) (Nat.two_pow_pos _)
  rw [Nat.mul_comm, ← hQuotient] at hRound
  rw [roundWhole, hRound, Nat.mul_comm, ← hQuotient]

/-- Up to `2 ^ 53` nothing is rounded. -/
theorem roundWhole_of_le {n : Nat} (h : n ≤ 2 ^ 53) : roundWhole n = n := by
  rcases Nat.eq_or_lt_of_le h with rfl | hLess
  · exact roundWhole_of_dvd (by decide +kernel)
  · refine roundWhole_of_dvd ?_
    by_cases hZero : n = 0
    · simp [hZero]
    · have hLog := (Nat.log2_lt hZero).mpr hLess
      have hStep : n.log2 - 52 = 0 := by omega
      rw [hStep, Nat.pow_zero]
      exact Nat.one_dvd n

/-- Rounding goes by the digits and not by their place. -/
theorem roundWhole_mul_two_pow (n k : Nat) : roundWhole (n * 2 ^ k) = roundWhole n * 2 ^ k := by
  by_cases hZero : n = 0
  · simp [hZero, roundWhole_of_le]
  have hLog := log2_mul_two_pow hZero k
  by_cases hShort : n.log2 ≤ 52
  · have hExact : roundWhole n = n := by
      refine roundWhole_of_dvd ?_
      rw [Nat.sub_eq_zero_of_le hShort, Nat.pow_zero]
      exact Nat.one_dvd n
    rw [hExact]
    refine roundWhole_of_dvd ?_
    rw [hLog]
    exact Nat.dvd_mul_left_of_dvd (Nat.pow_dvd_pow 2 (by omega)) n
  · have hStep : n.log2 + k - 52 = n.log2 - 52 + k := by omega
    rw [roundWhole, hLog, hStep, Nat.pow_add, roundQuotient_mul _ _ (Nat.two_pow_pos k), roundWhole,
      Nat.mul_assoc]

/-- A number of at least 53 binary digits is rounded to 53 digits, or to the
next power of two. -/
theorem roundQuotient_bounds {n : Nat} (h : 52 ≤ n.log2) :
    2 ^ 52 ≤ roundQuotient n (2 ^ (n.log2 - 52)) ∧
      roundQuotient n (2 ^ (n.log2 - 52)) ≤ 2 ^ 53 := by
  have hZero : n ≠ 0 := by
    rintro rfl
    exact absurd h (by decide)
  have hLower := Nat.log2_self_le hZero
  have hUpper := Nat.le_of_lt (@Nat.lt_log2_self n)
  have hPos := Nat.two_pow_pos (n.log2 - 52)
  constructor
  · refine le_roundQuotient hPos ?_
    rwa [← Nat.pow_add, Nat.add_sub_cancel' h]
  · refine roundQuotient_le hPos ?_
    rwa [← Nat.pow_add, show 53 + (n.log2 - 52) = n.log2 + 1 by omega]

/-- Rounding stays between the powers of two on either side. -/
theorem roundWhole_bounds {n : Nat} (hZero : n ≠ 0) :
    2 ^ n.log2 ≤ roundWhole n ∧ roundWhole n ≤ 2 ^ (n.log2 + 1) := by
  by_cases hShort : 52 ≤ n.log2
  · obtain ⟨hLower, hUpper⟩ := roundQuotient_bounds hShort
    constructor
    · calc 2 ^ n.log2 = 2 ^ 52 * 2 ^ (n.log2 - 52) := by
            rw [← Nat.pow_add, Nat.add_sub_cancel' hShort]
        _ ≤ roundWhole n := Nat.mul_le_mul_right _ hLower
    · calc roundWhole n ≤ 2 ^ 53 * 2 ^ (n.log2 - 52) := Nat.mul_le_mul_right _ hUpper
        _ = 2 ^ (n.log2 + 1) := by
            rw [← Nat.pow_add, show 53 + (n.log2 - 52) = n.log2 + 1 by omega]
  · have hSmall : n < 2 ^ 53 := (Nat.log2_lt hZero).mp (by omega)
    rw [roundWhole_of_le (Nat.le_of_lt hSmall)]
    exact ⟨Nat.log2_self_le hZero, Nat.le_of_lt Nat.lt_log2_self⟩

/-- Rounding keeps the order of natural numbers. -/
theorem roundWhole_mono {a b : Nat} (h : a ≤ b) : roundWhole a ≤ roundWhole b := by
  by_cases hZero : a = 0
  · simp [hZero, roundWhole_of_le]
  have hOther : b ≠ 0 := by omega
  have hLog : a.log2 ≤ b.log2 :=
    (Nat.le_log2 hOther).mpr (Nat.le_trans (Nat.log2_self_le hZero) h)
  rcases Nat.eq_or_lt_of_le hLog with hSame | hLess
  · rw [roundWhole, roundWhole, hSame]
    exact Nat.mul_le_mul_right _ (roundQuotient_mono (Nat.two_pow_pos _) h)
  · calc roundWhole a ≤ 2 ^ (a.log2 + 1) := (roundWhole_bounds hZero).2
      _ ≤ 2 ^ b.log2 := Nat.pow_le_pow_right (by decide) hLess
      _ ≤ roundWhole b := (roundWhole_bounds hOther).1

/-- The size that a pattern stands for, also if the significand was rounded up
to the next power of two. -/
theorem size_of_pattern {x : Double} {step significand : Nat}
    (hPattern : x.pattern = step * 2 ^ 52 + significand) (hLower : 2 ^ 52 ≤ significand)
    (hUpper : significand ≤ 2 ^ 53) : x.size = significand * 2 ^ step := by
  rcases Nat.eq_or_lt_of_le hUpper with rfl | hLess
  · have hStep : x.step = step + 1 := by
      rw [Double.step, Nat.pow_eq, hPattern]
      omega
    have hSignificand : x.significand = 2 ^ 52 := by
      rw [Double.significand, hStep, Nat.pow_eq, hPattern]
      omega
    rw [size, hStep, hSignificand, Nat.pow_eq, Nat.pow_succ' (n := step)]
    omega
  · have hStep : x.step = step := by
      rw [Double.step, Nat.pow_eq, hPattern]
      omega
    have hSignificand : x.significand = significand := by
      rw [Double.significand, hStep, Nat.pow_eq, hPattern]
      omega
    rw [size, hStep, hSignificand, Nat.pow_eq]

/-- The nearest double of a whole number that is not too large. -/
theorem ofInt_spec {n : Int} (h : n.natAbs ≤ 2 ^ 64) :
    (ofInt n).negative = decide (n < 0) ∧
      (ofInt n).size = roundWhole n.natAbs * 2 ^ unitExponent := by
  by_cases hZero : n.natAbs = 0
  · obtain rfl := Int.natAbs_eq_zero.mp hZero
    exact ⟨by decide +kernel, by decide +kernel⟩
  have hUnit := unitExponent_eq
  have hLog := log2_mul_two_pow hZero unitExponent
  have hMost : n.natAbs.log2 ≤ 64 := by
    have hLess : n.natAbs < 2 ^ 65 := Nat.lt_of_le_of_lt h (by decide)
    exact Nat.le_of_lt_succ ((Nat.log2_lt hZero).mpr hLess)
  obtain ⟨hLower, hUpper⟩ := @roundQuotient_bounds (n.natAbs * 2 ^ unitExponent) (by omega)
  have hPattern : nearestPattern n.natAbs 1 =
      ((n.natAbs * 2 ^ unitExponent).log2 - 52) * 2 ^ 52 +
        roundQuotient (n.natAbs * 2 ^ unitExponent)
          (2 ^ ((n.natAbs * 2 ^ unitExponent).log2 - 52)) := by
    rw [nearestPattern_eq, Nat.div_one, Nat.one_mul]
  have hFinite : nearestPattern n.natAbs 1 < limit := by
    rw [hPattern, limit, Nat.pow_eq]
    omega
  have hDouble : ofInt n = ⟨decide (n < 0), nearestPattern n.natAbs 1, hFinite⟩ := by
    rw [ofInt, nearest?, dif_pos hFinite, Option.getD_some]
  rw [hDouble]
  refine ⟨rfl, ?_⟩
  rw [← roundWhole_mul_two_pow]
  exact size_of_pattern hPattern hLower hUpper

/-- The double of an integer stands for the rounded integer. -/
theorem units_ofInt {n : Int} (h : n.natAbs ≤ 2 ^ 64) :
    (ofInt n).units = roundInt n * ((2 ^ unitExponent : Nat) : Int) := by
  obtain ⟨hSign, hSize⟩ := ofInt_spec h
  rw [units, hSign, hSize, roundInt]
  rcases Int.lt_trichotomy n 0 with hNegative | rfl | hPositive
  · rw [decide_eq_true hNegative, if_pos rfl, Int.sign_eq_neg_one_of_neg hNegative, Nat.cast_mul,
      Int.neg_one_mul, Int.neg_mul]
  · decide +kernel
  · rw [decide_eq_false (Int.not_lt.mpr (Int.le_of_lt hPositive)), if_neg Bool.false_ne_true,
      Int.sign_eq_one_of_pos hPositive, Nat.cast_mul, Int.one_mul]

theorem roundInt_of_nonneg {n : Int} (h : 0 ≤ n) : roundInt n = roundWhole n.natAbs := by
  rcases Int.lt_or_eq_of_le h with hPositive | rfl
  · rw [roundInt, Int.sign_eq_one_of_pos hPositive, Int.one_mul]
  · simp [roundInt, roundWhole_of_le]

/-- Rounding is the same on both sides of zero. -/
theorem roundInt_neg (n : Int) : roundInt (-n) = -roundInt n := by
  rw [roundInt, roundInt, Int.sign_neg, Int.natAbs_neg, Int.neg_mul]

/-- Rounding keeps the order of integers. -/
theorem roundInt_mono {a b : Int} (h : a ≤ b) : roundInt a ≤ roundInt b := by
  have hWhole {a b : Int} (hZero : 0 ≤ a) (hLe : a ≤ b) : roundInt a ≤ roundInt b := by
    rw [roundInt_of_nonneg hZero, roundInt_of_nonneg (Int.le_trans hZero hLe)]
    exact Int.ofNat_le.mpr (roundWhole_mono (by omega))
  rcases Int.le_total 0 a with hA | hA
  · exact hWhole hA h
  · rcases Int.le_total b 0 with hB | hB
    · have hFlip := @hWhole (-b) (-a) (by omega) (by omega)
      rw [roundInt_neg, roundInt_neg] at hFlip
      omega
    · have hBelow := @hWhole 0 (-a) (Int.le_refl 0) (by omega)
      have hAbove := hWhole (Int.le_refl 0) hB
      have hNothing : roundInt 0 = 0 := rfl
      rw [roundInt_neg, hNothing] at hBelow
      omega

/-- An integer up to `2 ^ 53` in size is not rounded. -/
theorem roundInt_of_le {n : Int} (h : n.natAbs ≤ 2 ^ 53) : roundInt n = n := by
  rw [roundInt, roundWhole_of_le h, Int.sign_mul_natAbs]

/-- A number below `2 ^ 53` is told apart from every other number. -/
theorem roundInt_lt_iff {a b : Int} (h : a.natAbs < 2 ^ 53 ∨ b.natAbs < 2 ^ 53) :
    roundInt a < roundInt b ↔ a < b := by
  refine ⟨fun hRounded => ?_, fun hLess => ?_⟩
  · by_contra hNot
    exact absurd (roundInt_mono (Int.not_lt.mp hNot)) (Int.not_le.mpr hRounded)
  · rcases h with hSmall | hSmall
    · have hStep := roundInt_mono (show a + 1 ≤ b from hLess)
      rw [roundInt_of_le (show (a + 1).natAbs ≤ 2 ^ 53 by omega)] at hStep
      rw [roundInt_of_le (Nat.le_of_lt hSmall)]
      exact hStep
    · have hStep := roundInt_mono (show a ≤ b - 1 by omega)
      rw [roundInt_of_le (show (b - 1).natAbs ≤ 2 ^ 53 by omega)] at hStep
      rw [roundInt_of_le (Nat.le_of_lt hSmall)]
      omega

/-- An integer below `2 ^ 53` is rounded to what no other integer is rounded
to. -/
theorem roundInt_eq_iff {a b : Int} (h : a.natAbs < 2 ^ 53 ∨ b.natAbs < 2 ^ 53) :
    roundInt a = roundInt b ↔ a = b := by
  have hLess := roundInt_lt_iff h
  have hGreater := roundInt_lt_iff h.symm
  omega

section Order

variable {a b : Int} (ha : a.natAbs ≤ 2 ^ 64) (hb : b.natAbs ≤ 2 ^ 64)
include ha hb

/-- Integers are ordered as doubles as what they are rounded to. -/
theorem order_ofInt : (ofInt a).order (ofInt b) = compare (roundInt a) (roundInt b) := by
  have hPos : (0 : Int) < ((2 ^ unitExponent : Nat) : Int) :=
    Int.natCast_pos.mpr (Nat.two_pow_pos _)
  rw [order, units_ofInt ha, units_ofInt hb]
  rcases Int.lt_trichotomy (roundInt a) (roundInt b) with hLess | hSame | hGreater
  · rw [compare_lt_iff_lt.mpr hLess]
    exact compare_lt_iff_lt.mpr (Int.mul_lt_mul_of_pos_right hLess hPos)
  · rw [hSame, compare_eq_iff_eq.mpr rfl, compare_eq_iff_eq.mpr rfl]
  · rw [compare_gt_iff_gt.mpr hGreater]
    exact compare_gt_iff_gt.mpr (Int.mul_lt_mul_of_pos_right hGreater hPos)

/-- Integers are equal as doubles exactly if they are rounded to the same. -/
theorem equal_ofInt_iff : (ofInt a).equal (ofInt b) = true ↔ roundInt a = roundInt b := by
  have hOrder := order_ofInt ha hb
  rw [order] at hOrder
  rw [equal, beq_iff_eq, ← compare_eq_iff_eq, hOrder, compare_eq_iff_eq]

end Order

end DocQuery.Double
