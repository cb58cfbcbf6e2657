import DocQuery.Proofs.Query.Spelling

/-! The values of canonical texts. The tokens of a constant spell a value that
means this constant; numbers are read digit by digit. -/
namespace DocQuery

namespace Grammar

section Digits

variable {negative : Bool} {digits : List Char}

/-- A first digit is no minus sign, so the sign is taken off and nothing
else. -/
theorem splitSign_eq (hDigits : ∀ c ∈ digits.head?, c ≠ '-') :
    (match (if negative then '-' :: digits else digits) with
      | '-' :: rest => (true, rest)
      | rest => (false, rest)) = (negative, digits) := by
  cases negative with
  | true => rfl
  | false =>
      simp only [Bool.false_eq_true, if_false]
      split
      · exact absurd rfl (hDigits '-' rfl)
      · rfl

theorem any_signed :
    (if negative then '-' :: digits else digits).any
        (fun c => c == '.' || c == 'e' || c == 'E') =
      digits.any fun c => c == '.' || c == 'e' || c == 'E' := by
  cases negative with
  | true => simp
  | false => rfl

/-- The sign is taken off, and the digits behind it tell whether the number is a
float. -/
theorem literalOfDigits_signed (hDigits : ∀ c ∈ digits.head?, c ≠ '-') :
    literalOfDigits (String.ofList (if negative then '-' :: digits else digits)) =
      if digits.any fun c => c == '.' || c == 'e' || c == 'E' then
        match Decimal.ofText? digits with
        | none =>
            .error (.malformedNumber (String.ofList (if negative then '-' :: digits else digits)))
        | some decimal =>
            match Double.ofDecimal? negative decimal with
            | some x => .ok (.float (.finite x))
            | none =>
                .error (.numberOutOfRange
                  (String.ofList (if negative then '-' :: digits else digits)))
      else if Literal.inRange
          (if negative then -(Decimal.value digits : Int) else Decimal.value digits)
      then .ok (.integer (if negative then -(Decimal.value digits : Int) else Decimal.value digits))
      else .error (.integerOutOfRange
        (String.ofList (if negative then '-' :: digits else digits))) := by
  unfold literalOfDigits
  rw [String.toList_ofList]
  split
  rename_i sign unsigned hSign
  obtain ⟨rfl, rfl⟩ := Prod.mk.inj ((splitSign_eq hDigits).symm.trans hSign)
  rewrite [any_signed]
  rfl

/-- Digits with a point or an exponent are read as a double, if one is near. -/
theorem literalOfDigits_of_real {decimal : Decimal} {x : Double}
    (hDigits : ∀ c ∈ digits.head?, c ≠ '-')
    (hReal : digits.any (fun c => c == '.' || c == 'e' || c == 'E') = true)
    (hDecimal : Decimal.ofText? digits = some decimal)
    (hDouble : Double.ofDecimal? negative decimal = some x) :
    literalOfDigits (String.ofList (if negative then '-' :: digits else digits)) =
      .ok (.float (.finite x)) := by
  simp only [literalOfDigits_signed hDigits, hReal, if_true, hDecimal, hDouble]

/-- Digits alone are read as an integer, if it is in range. -/
theorem literalOfDigits_of_integer {n : Int} (hDigits : ∀ c ∈ digits.head?, c ≠ '-')
    (hReal : digits.any (fun c => c == '.' || c == 'e' || c == 'E') = false)
    (hValue : (if negative then -(Decimal.value digits : Int) else Decimal.value digits) = n)
    (hRange : Literal.inRange n = true) :
    literalOfDigits (String.ofList (if negative then '-' :: digits else digits)) =
      .ok (.integer n) := by
  simp only [literalOfDigits_signed hDigits, hReal, Bool.false_eq_true, if_false, hValue, hRange,
    if_true]

end Digits

theorem head?_ne_minus (n : Numeral) : ∀ c ∈ n.text.head?, c ≠ '-' := by
  intro c hc hMinus
  have hDigit := @Numeral.isDigit_of_head? n [] c (by rwa [List.append_nil])
  rw [hMinus] at hDigit
  exact absurd hDigit (by decide)

/-- The text of a float is read as this float. -/
theorem literalOfDigits_numeral {negative : Bool} {n : Numeral} {x : Double} (hReal : n.IsReal)
    (hDouble : Double.ofDecimal? negative n.decimal = some x) :
    literalOfDigits (String.ofList (if negative then '-' :: n.text else n.text)) =
      .ok (.float (.finite x)) := by
  refine literalOfDigits_of_real (head?_ne_minus n) ?_ (Decimal.ofText?_text n) hDouble
  rw [List.any_eq_true]
  obtain hFraction | hExponent := hReal
  · exact ⟨'.', by simp [Numeral.text, Numeral.fractionText, hFraction], rfl⟩
  · obtain ⟨e, he⟩ := Option.isSome_iff_exists.mp hExponent
    exact ⟨'e', by simp [Numeral.text, Numeral.exponentText, he], rfl⟩

/-- The text of an integer has no mark of a float and is read as this
integer. -/
theorem literalOfDigits_toDigits {n : Int} (h : Literal.inRange n = true) :
    literalOfDigits (String.ofList (if decide (n < 0) then '-' :: Nat.toDigits 10 n.natAbs
      else Nat.toDigits 10 n.natAbs)) = .ok (.integer n) := by
  have hHead := head?_ne_minus (.ofNat n.natAbs)
  rw [Numeral.text_ofNat] at hHead
  refine literalOfDigits_of_integer hHead ?_ ?_ h
  · rw [List.any_eq_false]
    intro c hc
    have hDigit := (Digits.ofNat n.natAbs).isDigit c hc
    rintro hMark
    simp only [Bool.or_eq_true, beq_iff_eq] at hMark
    obtain (rfl | rfl) | rfl := hMark <;> exact absurd hDigit (by decide)
  · rw [Decimal.value_toDigits]
    simp only [decide_eq_true_eq]
    split <;> omega

/-- A number is spelled with its sign in front of its digits. -/
theorem spellsValue_signed (negative : Bool) (digits : List Char) :
    SpellsValue (signedTokens negative digits)
      (.number (String.ofList (if negative then '-' :: digits else digits)) .start) := by
  cases negative with
  | false => exact .number (String.ofList digits)
  | true =>
      have hText : "-" ++ String.ofList digits = String.ofList ('-' :: digits) := by
        apply String.toList_injective
        simp
      have hSpells := SpellsValue.negative (String.ofList digits)
      rw [hText] at hSpells
      exact hSpells

/-- The items of an array are evaluated one by one. -/
theorem evaluateAll_of_forall₂ {items : List Literal} {nodes : List ValueNode}
    (h : List.Forall₂ (fun literal node => ValueNode.evaluate node = .ok literal) items nodes) :
    ValueNode.evaluateAll nodes = .ok items := by
  induction h with
  | nil => rfl
  | cons hFirst _ ih =>
      rw [ValueNode.evaluateAll, hFirst, ih]
      rfl

/-- The digits of a number express what they are read as. -/
theorem expresses_signed {negative : Bool} {digits : List Char} {literal : Literal}
    (h : literalOfDigits (String.ofList (if negative then '-' :: digits else digits)) =
      .ok literal) :
    Expresses SpellsValue (fun literal node => node.evaluate = .ok literal)
      (signedTokens negative digits) literal := by
  refine ⟨_, spellsValue_signed negative digits, ?_⟩
  simp only [ValueNode.evaluate, h]

mutual

/-- The tokens of a literal spell a value that evaluates to it. -/
theorem expresses_literal (literal : Literal) (h : literal.WellFormed) :
    Expresses SpellsValue (fun literal node => node.evaluate = .ok literal) literal.tokens
      literal := by
  cases literal with
  | null => exact ⟨_, .null, rfl⟩
  | bool b =>
      cases b with
      | false => exact ⟨_, .false, rfl⟩
      | true => exact ⟨_, .true, rfl⟩
  | integer n =>
      rw [Literal.tokens]
      exact expresses_signed (literalOfDigits_toDigits h)
  | float x =>
      obtain ⟨y, rfl⟩ := h
      obtain ⟨n, hText, hReal, hDouble⟩ := y.exists_numeral_render FloatLiteral.style
      rw [Literal.tokens, hText]
      exact expresses_signed (literalOfDigits_numeral hReal hDouble)
  | string s => exact ⟨_, .string s, rfl⟩
  | array items =>
      obtain ⟨nodes, hSpells, hNodes⟩ := exists_forall₂_of_expresses (expresses_items items h)
      rw [Literal.tokens, Literal.tokensOfItems_eq]
      refine ⟨_, .array hSpells, ?_⟩
      simp only [ValueNode.evaluate, evaluateAll_of_forall₂ hNodes]
      rfl

theorem expresses_items (items : List Literal) (h : Literal.AllWellFormed items) :
    ∀ item ∈ items, Expresses SpellsValue (fun literal node => node.evaluate = .ok literal)
      item.tokens item := by
  cases items with
  | nil => simp
  | cons item more =>
      exact List.forall_mem_cons.mpr ⟨expresses_literal item h.1, expresses_items more h.2⟩

end

end Grammar

end DocQuery
