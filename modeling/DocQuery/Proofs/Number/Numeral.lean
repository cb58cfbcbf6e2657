import DocQuery.Proofs.Number.Nearest
import Mathlib.Data.List.TakeWhile

/-! Numbers as they are written: digits, an optional fraction and an optional
exponent. Whatever layout a decimal is written in, the numeral has the value of
the decimal. -/
namespace DocQuery

namespace Text

/-- A text goes on with no character of a class. -/
def StopsAt (class? : Char → Bool) (rest : List Char) : Prop :=
  ∀ c ∈ rest.head?, class? c = false

theorem stopsAt_nil (class? : Char → Bool) : StopsAt class? [] := by
  intro c hc
  cases hc

theorem stopsAt_cons {class? : Char → Bool} {c : Char} (h : class? c = false) (rest : List Char) :
    StopsAt class? (c :: rest) := by
  intro d hd
  cases hd
  exact h

/-- A text that stops a class stops every class inside it. -/
theorem StopsAt.mono {class? inner? : Char → Bool} {rest : List Char} (h : StopsAt class? rest)
    (hInner : ∀ c, inner? c = true → class? c = true) : StopsAt inner? rest := by
  intro c hc
  cases hClass : inner? c with
  | false => rfl
  | true => exact absurd (hInner c hClass) (by simp [h c hc])

/-- A run of one class is taken up to where the class stops. -/
theorem takeWhile_append_of_stopsAt {class? : Char → Bool} {text rest : List Char}
    (hText : ∀ c ∈ text, class? c = true) (hRest : StopsAt class? rest) :
    (text ++ rest).takeWhile class? = text := by
  rw [List.takeWhile_append_of_pos hText]
  cases rest with
  | nil => simp
  | cons c rest => simp [hRest c rfl]

/-- What follows a run of one class is left over. -/
theorem dropWhile_append_of_stopsAt {class? : Char → Bool} {text rest : List Char}
    (hText : ∀ c ∈ text, class? c = true) (hRest : StopsAt class? rest) :
    (text ++ rest).dropWhile class? = rest := by
  rw [List.dropWhile_append_of_pos hText]
  cases rest with
  | nil => simp
  | cons c rest => simp [hRest c rfl]

end Text

/-- A run of decimal digits. -/
structure Digits where
  toList : List Char
  isDigit : ∀ c ∈ toList, c.isDigit = true

namespace Digits

/-- The digits of one run followed by those of another. -/
def append (first second : Digits) : Digits where
  toList := first.toList ++ second.toList
  isDigit c hc := (List.mem_append.mp hc).elim (first.isDigit c) (second.isDigit c)

def ofNat (n : Nat) : Digits where
  toList := Nat.toDigits 10 n
  isDigit _ hc := Nat.isDigit_of_mem_toDigits (by decide) (by decide) hc

def zeros (n : Nat) : Digits where
  toList := List.replicate n '0'
  isDigit c hc := by rw [List.eq_of_mem_replicate hc]; rfl

def take (n : Nat) (digits : Digits) : Digits where
  toList := digits.toList.take n
  isDigit c hc := digits.isDigit c (List.mem_of_mem_take hc)

def drop (n : Nat) (digits : Digits) : Digits where
  toList := digits.toList.drop n
  isDigit c hc := digits.isDigit c (List.mem_of_mem_drop hc)

/-- Digits are taken up to where none follows. -/
theorem takeWhile_append (digits : Digits) {rest : List Char}
    (h : Text.StopsAt Char.isDigit rest) :
    (digits.toList ++ rest).takeWhile Char.isDigit = digits.toList :=
  Text.takeWhile_append_of_stopsAt digits.isDigit h

theorem dropWhile_append (digits : Digits) {rest : List Char}
    (h : Text.StopsAt Char.isDigit rest) :
    (digits.toList ++ rest).dropWhile Char.isDigit = rest :=
  Text.dropWhile_append_of_stopsAt digits.isDigit h

theorem all_isDigit (digits : Digits) : digits.toList.all Char.isDigit = true :=
  List.all_eq_true.mpr digits.isDigit

end Digits

/-- The sign of an exponent, which need not be written. -/
inductive ExponentSign where
  | none
  | plus
  | minus
  deriving DecidableEq, Repr

def ExponentSign.text : ExponentSign → List Char
  | .none => []
  | .plus => ['+']
  | .minus => ['-']

/-- The exponent that digits after a sign stand for. -/
def ExponentSign.apply : ExponentSign → Nat → Int
  | .minus, n => -n
  | _, n => n

/-- A number as it is written. An empty fraction is not written at all, and
neither is its point. -/
structure Numeral where
  whole : Digits
  fraction : Digits
  exponent : Option (ExponentSign × Digits)
  whole_ne_nil : whole.toList ≠ []
  exponent_ne_nil : ∀ e ∈ exponent, e.2.toList ≠ []

namespace Numeral

/-- The point and the digits after it. -/
def fractionText (n : Numeral) : List Char :=
  if n.fraction.toList = [] then [] else '.' :: n.fraction.toList

def exponentText (n : Numeral) : List Char :=
  match n.exponent with
  | none => []
  | some (sign, digits) => 'e' :: (sign.text ++ digits.toList)

def text (n : Numeral) : List Char :=
  n.whole.toList ++ (n.fractionText ++ n.exponentText)

def exponentValue (n : Numeral) : Int :=
  match n.exponent with
  | none => 0
  | some (sign, digits) => sign.apply (Decimal.value digits.toList)

/-- The decimal that a numeral stands for. -/
def decimal (n : Numeral) : Decimal :=
  ⟨Decimal.value (n.whole.toList ++ n.fraction.toList),
    n.exponentValue - n.fraction.toList.length⟩

/-- A numeral with a fraction or an exponent, which is read as a float. -/
def IsReal (n : Numeral) : Prop :=
  n.fraction.toList ≠ [] ∨ n.exponent.isSome = true

/-- The characters that could make a number longer. -/
def continues (c : Char) : Bool :=
  c.isDigit || c == '.' || c == 'e' || c == 'E'

/-- A numeral begins with a digit, in particular with no sign. -/
theorem isDigit_of_head? (n : Numeral) {rest : List Char} {c : Char}
    (hc : c ∈ (n.text ++ rest).head?) : c.isDigit = true := by
  obtain ⟨first, digits, hList⟩ := List.exists_cons_of_ne_nil n.whole_ne_nil
  have hFirst : first = c := by simpa [text, hList] using hc
  exact hFirst ▸ n.whole.isDigit first (by simp [hList])

/-- A fraction ends before the exponent. -/
theorem stopsAt_exponentText (n : Numeral) {rest : List Char}
    (hRest : Text.StopsAt continues rest) :
    Text.StopsAt (fun c => c.isDigit || c == '.') (n.exponentText ++ rest) := by
  cases hExponent : n.exponent with
  | none =>
      rw [exponentText, hExponent]
      refine hRest.mono fun c hc => ?_
      simp only [Bool.or_eq_true] at hc
      rcases hc with hc | hc <;> simp [continues, hc]
  | some e =>
      rw [exponentText, hExponent]
      exact Text.stopsAt_cons (by decide) _

/-- The whole part ends before the fraction and the exponent. -/
theorem stopsAt_tail (n : Numeral) {rest : List Char} (hRest : Text.StopsAt continues rest) :
    Text.StopsAt Char.isDigit (n.fractionText ++ (n.exponentText ++ rest)) := by
  by_cases hFraction : n.fraction.toList = []
  · rw [fractionText, if_pos hFraction]
    exact (n.stopsAt_exponentText hRest).mono fun c hc => by simp [hc]
  · rw [fractionText, if_neg hFraction]
    exact Text.stopsAt_cons (by decide) _

/-- The exponent is written with a small mark. -/
theorem capital_notMem_exponentText (n : Numeral) : 'E' ∉ n.exponentText := by
  intro hMember
  cases hExponent : n.exponent with
  | none => simp [exponentText, hExponent] at hMember
  | some e =>
      obtain ⟨sign, digits⟩ := e
      have hDigits : 'E' ∉ digits.toList := fun h => absurd (digits.isDigit _ h) (by decide)
      cases sign <;> simp [exponentText, hExponent, ExponentSign.text, hDigits] at hMember

end Numeral

namespace Decimal

/-- A sign with digits behind it is read as the exponent that it stands for. -/
theorem exponentOfText?_text (sign : ExponentSign) {digits : Digits} (h : digits.toList ≠ []) :
    exponentOfText? (sign.text ++ digits.toList) = some (sign.apply (value digits.toList)) := by
  have hMagnitude : digits.toList ≠ [] ∧ digits.toList.all Char.isDigit = true :=
    ⟨h, digits.all_isDigit⟩
  cases sign with
  | plus => simp [exponentOfText?, ExponentSign.text, ExponentSign.apply, hMagnitude]
  | minus => simp [exponentOfText?, ExponentSign.text, ExponentSign.apply, hMagnitude]
  | none =>
      obtain ⟨c, rest, hList⟩ := List.exists_cons_of_ne_nil h
      have hDigit : c.isDigit = true := digits.isDigit c (by simp [hList])
      have hMinus : c ≠ '-' := fun hEq => by simp [hEq] at hDigit
      have hPlus : c ≠ '+' := fun hEq => by simp [hEq] at hDigit
      simp only [exponentOfText?, ExponentSign.text, List.nil_append]
      split
      · rename_i hHead
        exact absurd (List.cons.inj (hList.symm.trans hHead)).1 hMinus
      · rename_i hHead
        exact absurd (List.cons.inj (hList.symm.trans hHead)).1 hPlus
      · simp [hMagnitude, ExponentSign.apply]

/-- Behind the digits of the fraction only the exponent is left. -/
theorem tailOfText?_exponentText (n : Numeral) (fraction : List Char) :
    (match n.exponentText with
      | [] => some (fraction, (0 : Int))
      | c :: rest =>
          if c = 'e' ∨ c = 'E' then
            (exponentOfText? rest).map fun exponent => (fraction, exponent)
          else none) = some (fraction, n.exponentValue) := by
  cases hExponent : n.exponent with
  | none => simp [Numeral.exponentText, Numeral.exponentValue, hExponent]
  | some e =>
      obtain ⟨sign, digits⟩ := e
      have hDigits : digits.toList ≠ [] := n.exponent_ne_nil _ hExponent
      simp [Numeral.exponentText, Numeral.exponentValue, hExponent,
        exponentOfText?_text sign hDigits]

/-- What follows the whole part of a numeral is read back as its fraction and
exponent. -/
theorem tailOfText?_text (n : Numeral) :
    tailOfText? (n.fractionText ++ n.exponentText) =
      some (n.fraction.toList, n.exponentValue) := by
  by_cases hFraction : n.fraction.toList = []
  · simp only [Numeral.fractionText, hFraction, if_true, List.nil_append, tailOfText?]
    split
    · rename_i rest hHead
      cases hExponent : n.exponent with
      | none => simp [Numeral.exponentText, hExponent] at hHead
      | some e => simp [Numeral.exponentText, hExponent] at hHead
    · exact tailOfText?_exponentText n []
  · have hStops : Text.StopsAt Char.isDigit n.exponentText := by
      simpa using (n.stopsAt_exponentText (Text.stopsAt_nil _)).mono fun c hc => by simp [hc]
    simp only [Numeral.fractionText, hFraction, if_false, List.cons_append, tailOfText?,
      n.fraction.takeWhile_append hStops, n.fraction.dropWhile_append hStops]
    exact tailOfText?_exponentText n _

/-- A numeral is read as the decimal it stands for. -/
theorem ofText?_text (n : Numeral) : ofText? n.text = some n.decimal := by
  have hStops : Text.StopsAt Char.isDigit (n.fractionText ++ n.exponentText) := by
    simpa using n.stopsAt_tail (Text.stopsAt_nil _)
  simp only [ofText?, Numeral.text, n.whole.takeWhile_append hStops,
    n.whole.dropWhile_append hStops, n.whole_ne_nil, if_false, tailOfText?_text,
    Option.map_some, Numeral.decimal]

/-- The digits of a natural number have its value. -/
theorem value_toDigits (n : Nat) : value (Nat.toDigits 10 n) = n :=
  Nat.ofDigitChars_ten_toDigits

/-- Zeros at the end multiply by a power of ten. -/
theorem value_append_zeros (digits : List Char) (n : Nat) :
    value (digits ++ List.replicate n '0') = value digits * 10 ^ n := by
  rw [value, Nat.ofDigitChars_append, Nat.ofDigitChars_replicate_zero, Nat.mul_comm]
  rfl

/-- Zeros in front do not count. -/
theorem value_zeros_append (n : Nat) (digits : List Char) :
    value (List.replicate n '0' ++ digits) = value digits := by
  rw [value, Nat.ofDigitChars_append, Nat.ofDigitChars_replicate_zero, Nat.mul_zero]
  rfl

theorem value_cons_zero (digits : List Char) : value ('0' :: digits) = value digits :=
  value_zeros_append 1 digits

/-- The point stands behind at least one digit. Zeros fill up a whole part that
is too short, and an empty fraction becomes one zero. -/
theorem exists_numeral_whole (digits : Digits) (h : digits.toList ≠ []) (n : Nat) :
    ∃ m : Numeral, positional digits.toList (n + 1 : Nat) = m.text ∧ m.IsReal ∧ ∃ zeros,
      m.decimal =
        extend ⟨value digits.toList, (n + 1 : Nat) - digits.toList.length⟩ zeros := by
  by_cases hLong : n + 1 < digits.toList.length
  · have hDrop : digits.toList.drop (n + 1) ≠ [] := by simpa using hLong
    refine ⟨⟨digits.take (n + 1), digits.drop (n + 1), none, by simpa [Digits.take] using h,
      by simp⟩, ?_, Or.inl hDrop, 0, ?_⟩
    · simp [positional, hDrop, Numeral.text, Numeral.fractionText, Numeral.exponentText,
        Digits.take, Digits.drop, Nat.min_eq_left (Nat.le_of_lt hLong)]
    · simp [Numeral.decimal, Numeral.exponentValue, Digits.take, Digits.drop, extend]
      omega
  · have hDrop : digits.toList.drop (n + 1) = [] := by simpa using hLong
    have hTake : digits.toList.take (n + 1) = digits.toList := by
      rw [List.take_of_length_le (by omega)]
    refine ⟨⟨digits.append (.zeros (n + 1 - digits.toList.length)), .zeros 1, none,
      by simpa [Digits.append] using fun hEq => absurd hEq h, by simp⟩, ?_,
      Or.inl (by simp [Digits.zeros]), n + 1 - digits.toList.length + 1, ?_⟩
    · simp [positional, hDrop, hTake, Numeral.text, Numeral.fractionText, Numeral.exponentText,
        Digits.append, Digits.zeros]
    · simp only [Numeral.decimal, Numeral.exponentValue, Digits.append, Digits.zeros, extend,
        List.append_assoc, List.replicate_append_replicate, value_append_zeros,
        List.length_replicate]
      congr 1
      omega

/-- Digits written with the point at a place are a numeral, which only adds
zeros to them. -/
theorem exists_numeral_positional (digits : Digits) (h : digits.toList ≠ []) (point : Int) :
    ∃ n : Numeral, positional digits.toList point = n.text ∧ n.IsReal ∧ ∃ zeros,
      n.decimal = extend ⟨value digits.toList, point - digits.toList.length⟩ zeros := by
  match point with
  | .ofNat (n + 1) => exact exists_numeral_whole digits h n
  | .ofNat 0 =>
      refine ⟨⟨.zeros 1, digits, none, by simp [Digits.zeros], by simp⟩, ?_, Or.inl h, 0, ?_⟩
      · simp [positional, Numeral.text, Numeral.fractionText, Numeral.exponentText, Digits.zeros, h]
      · simp [Numeral.decimal, Numeral.exponentValue, Digits.zeros, extend, value_cons_zero]
  | .negSucc n =>
      refine ⟨⟨.zeros 1, (Digits.zeros (n + 1)).append digits, none, by simp [Digits.zeros],
        by simp⟩, ?_, Or.inl (by simp [Digits.append, h]), 0, ?_⟩
      · simp [positional, Numeral.text, Numeral.fractionText, Numeral.exponentText,
          Digits.zeros, Digits.append, h]
      · simp [Numeral.decimal, Numeral.exponentValue, Digits.append, Digits.zeros, extend,
          value_cons_zero, value_zeros_append]
        omega

/-- Digits written with an exponent are a numeral of the same value. -/
theorem exists_numeral_scientific (plus : Bool) (digits : Digits) (h : digits.toList ≠ [])
    (exponent : Int) :
    ∃ n : Numeral, scientific plus digits.toList exponent = n.text ∧ n.IsReal ∧
      n.decimal = ⟨value digits.toList, exponent + 1 - digits.toList.length⟩ := by
  let sign : ExponentSign := if exponent < 0 then .minus else if plus then .plus else .none
  have hSign : sign.text = if exponent < 0 then ['-'] else if plus then ['+'] else [] := by
    simp only [sign]
    split_ifs <;> rfl
  have hValue : sign.apply exponent.natAbs = exponent := by
    simp only [sign]
    split_ifs <;> simp only [ExponentSign.apply] <;> omega
  have hLength : 0 < digits.toList.length := List.length_pos_iff.mpr h
  refine ⟨⟨digits.take 1, digits.drop 1, some (sign, .ofNat exponent.natAbs),
    by simpa [Digits.take] using h, by simp [Digits.ofNat, Nat.toDigits_ne_nil]⟩, ?_,
    Or.inr rfl, ?_⟩
  · simp [scientific, Numeral.text, Numeral.fractionText, Numeral.exponentText, Digits.take,
      Digits.drop, Digits.ofNat, hSign]
  · simp only [Numeral.decimal, Numeral.exponentValue, Digits.take, Digits.drop, Digits.ofNat,
      List.take_append_drop, value_toDigits, hValue, List.length_drop]
    congr 1
    omega

/-- The digits of a number without the zeros that end them. -/
theorem toDigits_eq_append_zeros (n : Nat) : ∃ zeros,
    Nat.toDigits 10 n = ((Nat.toDigits 10 n).reverse.dropWhile (· == '0')).reverse ++
      List.replicate zeros '0' := by
  have hZeros : (Nat.toDigits 10 n).reverse.takeWhile (· == '0') =
      List.replicate ((Nat.toDigits 10 n).reverse.takeWhile (· == '0')).length '0' :=
    List.eq_replicate_of_mem fun c hc => by simpa using List.mem_takeWhile_imp hc
  refine ⟨((Nat.toDigits 10 n).reverse.takeWhile (· == '0')).length, ?_⟩
  rw [← List.reverse_replicate, ← hZeros, ← List.reverse_append, List.takeWhile_append_dropWhile,
    List.reverse_reverse]

/-- However a decimal is written, the numeral is read as the same double as the
decimal. -/
theorem exists_numeral_render (style : Style) (d : Decimal) :
    ∃ n : Numeral, d.render style = n.text ∧ n.IsReal ∧ ∀ negative,
      Double.ofDecimal? negative n.decimal = Double.ofDecimal? negative d := by
  by_cases hZero : d.digits = 0
  · refine ⟨⟨.zeros 1, .zeros 1, none, by simp [Digits.zeros], by simp⟩, ?_,
      Or.inl (by simp [Digits.zeros]), fun negative => ?_⟩
    · simp [render, hZero, Numeral.text, Numeral.fractionText, Numeral.exponentText, Digits.zeros]
    · have hValue : value ['0', '0'] = 0 := rfl
      simp [Double.ofDecimal?, Numeral.decimal, Digits.zeros, hZero, hValue]
  obtain ⟨zeros, hWritten⟩ := toDigits_eq_append_zeros d.digits
  generalize hStripped : ((Nat.toDigits 10 d.digits).reverse.dropWhile (· == '0')).reverse =
    stripped at hWritten
  have hDigit : ∀ c ∈ stripped, c.isDigit = true := fun c hc =>
    Nat.isDigit_of_mem_toDigits (b := 10) (by decide) (by decide)
      (hWritten ▸ List.mem_append_left _ hc)
  have hValue : d.digits = value stripped * 10 ^ zeros := by
    rw [← value_append_zeros, ← hWritten, value_toDigits]
  have hNonempty : stripped ≠ [] := by
    rintro rfl
    exact hZero (by simpa [value] using hValue)
  have hReads (negative : Bool) : Double.ofDecimal? negative d =
      Double.ofDecimal? negative ⟨value stripped, d.exponent + zeros⟩ := by
    rw [← Double.ofDecimal?_extend negative ⟨value stripped, d.exponent + zeros⟩ zeros, extend,
      ← hValue, Int.add_sub_cancel]
  have hLength : (Nat.toDigits 10 d.digits).length = stripped.length + zeros := by
    rw [hWritten, List.length_append, List.length_replicate]
  have hExponent : d.exponent + (Nat.toDigits 10 d.digits).length - 1 + 1 - stripped.length =
      d.exponent + zeros := by omega
  simp only [render, hZero, if_false, hStripped]
  split
  · obtain ⟨n, hText, hReal, more, hNumeral⟩ := exists_numeral_positional
      ⟨stripped, hDigit⟩ hNonempty (d.exponent + (Nat.toDigits 10 d.digits).length - 1 + 1)
    refine ⟨n, hText, hReal, fun negative => ?_⟩
    rw [hNumeral, Double.ofDecimal?_extend, hExponent, hReads]
  · obtain ⟨n, hText, hReal, hNumeral⟩ := exists_numeral_scientific style.plus
      ⟨stripped, hDigit⟩ hNonempty (d.exponent + (Nat.toDigits 10 d.digits).length - 1)
    refine ⟨n, hText, hReal, fun negative => ?_⟩
    rw [hNumeral, hExponent, hReads]

end Decimal

/-- A double in writing, its sign apart, is a numeral that reads back. -/
theorem Double.exists_numeral_render (style : Decimal.Style) (x : Double) :
    ∃ n : Numeral, (x.shortest style.tieUp).render style = n.text ∧ n.IsReal ∧
      Double.ofDecimal? x.negative n.decimal = some x := by
  obtain ⟨n, hText, hReal, hReads⟩ := Decimal.exists_numeral_render style (x.shortest style.tieUp)
  refine ⟨n, hText, hReal, ?_⟩
  rw [hReads, ofDecimal?_shortest]

end DocQuery
