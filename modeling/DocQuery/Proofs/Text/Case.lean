import DocQuery.Text.Case
import DocQuery.Text.Letter

/-! Letters in either case. Putting ASCII letters into lower case changes
neither which characters make up names nor which word is spelled. -/
namespace DocQuery.Text

/-- The small letter of a capital one is 32 codes on. -/
theorem toNat_toLower {c : Char} (hFrom : 65 ≤ c.toNat) (hTo : c.toNat ≤ 90) :
    c.toLower.toNat = c.toNat + 32 := by
  have hCode : c.toNat = c.val.toNat := rfl
  have hCapital : c.val ≥ 'A'.val ∧ c.val ≤ 'Z'.val := by
    have hBounds : 'A'.val.toNat = 65 ∧ 'Z'.val.toNat = 90 := ⟨rfl, rfl⟩
    simp only [ge_iff_le, UInt32.le_iff_toNat_le]
    omega
  have hStep : ('a'.val - 'A'.val).toNat = 32 := rfl
  have hLower : c.toLower.toNat = (c.val + ('a'.val - 'A'.val)).toNat :=
    congrArg Char.toNat (dif_pos hCapital)
  rw [hLower, UInt32.toNat_add, hStep]
  omega

/-- Only the capitals of ASCII have another lower case. -/
theorem toLower_eq_self {c : Char} (h : ¬ (65 ≤ c.toNat ∧ c.toNat ≤ 90)) : c.toLower = c := by
  have hCode : c.toNat = c.val.toNat := rfl
  have hBounds : 'A'.val.toNat = 65 ∧ 'Z'.val.toNat = 90 := ⟨rfl, rfl⟩
  refine dif_neg ?_
  simp only [ge_iff_le, UInt32.le_iff_toNat_le]
  omega

theorem isAlpha_iff {c : Char} :
    c.isAlpha = true ↔ (65 ≤ c.toNat ∧ c.toNat ≤ 90) ∨ (97 ≤ c.toNat ∧ c.toNat ≤ 122) := by
  delta Char.isAlpha Char.isUpper Char.isLower
  simp only [Bool.or_eq_true, decide_eq_true_eq, Bool.and_eq_true, ge_iff_le,
    UInt32.le_iff_toNat_le]
  rfl

/-- A character stays as it is or is a capital letter and becomes a small
one. -/
theorem toLower_cases (c : Char) :
    c.toLower = c ∨ (c.isAlpha = true ∧ c.toLower.isAlpha = true ∧
      c.toLower.toLower = c.toLower) := by
  by_cases h : 65 ≤ c.toNat ∧ c.toNat ≤ 90
  · have hCode := toNat_toLower h.1 h.2
    exact .inr ⟨isAlpha_iff.mpr (.inl h), isAlpha_iff.mpr (.inr (by omega)),
      toLower_eq_self (by omega)⟩
  · exact .inl (toLower_eq_self h)

/-- Letter case makes no difference to whether a character may stand in a
name. -/
theorem isNameChar_toLower (c : Char) : isNameChar c.toLower = isNameChar c := by
  obtain hSame | ⟨hAlpha, hLower, _⟩ := toLower_cases c
  · rw [hSame]
  · simp [isNameChar, isLetter_of_isAlpha hAlpha, isLetter_of_isAlpha hLower]

/-- Letter case makes no difference to whether a name may begin with a
character. -/
theorem isNameStart_toLower (c : Char) : isNameStart c.toLower = isNameStart c := by
  obtain hSame | ⟨hAlpha, hLower, _⟩ := toLower_cases c
  · rw [hSame]
  · simp [isNameStart, isLetter_of_isAlpha hAlpha, isLetter_of_isAlpha hLower]

/-- What is no letter has only itself for its lower case. -/
theorem eq_of_toLower_eq {c d : Char} (hSame : c.toLower = d.toLower) (h : c.isAlpha = false) :
    d = c := by
  have hLetter : c.toLower = c := (toLower_cases c).resolve_right fun hCase => by simp [h] at hCase
  rw [hLetter] at hSame
  obtain hStays | ⟨_, hLower, _⟩ := toLower_cases d
  · rw [hSame, hStays]
  · rw [← hSame, h] at hLower
    cases hLower

/-- Keywords are compared without regard to ASCII case. -/
theorem foldCase_toLower (c : Char) : foldCase c.toLower = foldCase c := by
  obtain hSame | ⟨hAlpha, hLower, hTwice⟩ := toLower_cases c
  · rw [hSame]
  · have hNot (d : Char) (hd : d.isAlpha = true) : d ≠ '\u212A' := fun hEq => by simp [hEq] at hd
    rw [foldCase, foldCase, if_neg (hNot _ hLower), if_neg (hNot _ hAlpha), hTwice]

/-- Words that differ in the case of ASCII letters only are folded to one. -/
theorem foldWord_eq {first second : List Char}
    (h : first.map Char.toLower = second.map Char.toLower) :
    foldWord (String.ofList first) = foldWord (String.ofList second) := by
  have hFold (text : List Char) : text.map foldCase = (text.map Char.toLower).map foldCase := by
    simp [foldCase_toLower]
  rw [foldWord, foldWord, String.toList_ofList, String.toList_ofList, hFold, h, ← hFold]

end DocQuery.Text
