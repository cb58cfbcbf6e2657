import DocQuery.Proofs.Grammar.Completeness
import DocQuery.Proofs.Grammar.Layout
import DocQuery.Proofs.Query.Values

/-! The numbers of a text. Every number token is a numeral, however long, and a
numeral behind a minus sign or none is read as the number it writes or is out of
range. So `limit` and `page` take the numbers that are written behind them, and
no other. -/
namespace DocQuery

namespace Numeral

/-- A numeral behind a minus sign or none. -/
def signed (negative : Bool) (n : Numeral) : List Char :=
  if negative then '-' :: n.text else n.text

/-- The whole number that is written in front of the point. -/
def integer (negative : Bool) (n : Numeral) : Int :=
  if negative then -(Decimal.value n.whole.toList : Int) else Decimal.value n.whole.toList

/-- A numeral without a fraction and an exponent is the digits of its whole
part. -/
theorem text_of_not_isReal {n : Numeral} (h : ¬ n.IsReal) : n.text = n.whole.toList := by
  obtain ⟨hFraction, hExponent⟩ := not_or.mp h
  have hNone : n.exponent = none := by simpa using hExponent
  simp [text, fractionText, exponentText, not_not.mp hFraction, hNone]

/-- A float has a point or an exponent, and nothing else has. -/
theorem any_mark_iff (n : Numeral) :
    n.text.any (fun c => c == '.' || c == 'e' || c == 'E') = true ↔ n.IsReal := by
  constructor
  · intro hMark
    by_contra hReal
    obtain ⟨c, hc, hMark⟩ := List.any_eq_true.mp hMark
    have hDigit := n.whole.isDigit c (text_of_not_isReal hReal ▸ hc)
    simp only [Bool.or_eq_true, beq_iff_eq] at hMark
    obtain (rfl | rfl) | rfl := hMark <;> exact absurd hDigit (by decide)
  · rintro (hFraction | hExponent)
    · exact List.any_eq_true.mpr ⟨'.', by simp [text, fractionText, hFraction], rfl⟩
    · obtain ⟨e, he⟩ := Option.isSome_iff_exists.mp hExponent
      exact List.any_eq_true.mpr ⟨'e', by simp [text, exponentText, he], rfl⟩

/-- A numeral as a value. An integer is the number that is written, of any
length and with zeros in front, if it has sixty-four bits; a float is the double
nearest to the numeral. Whatever is beyond is out of range. -/
structure ReadAs (negative : Bool) (n : Numeral) (result : Except SyntaxError Literal) : Prop where
  integer : ¬ n.IsReal → ∀ i, result = .ok (.integer i) ↔
    i = n.integer negative ∧ -2 ^ 63 ≤ i ∧ i ≤ 2 ^ 63 - 1
  beyond : ¬ n.IsReal → ¬ (-2 ^ 63 ≤ n.integer negative ∧ n.integer negative ≤ 2 ^ 63 - 1) →
    ∃ error, result = .error error ∧
      error.cause = .integerOutOfRange (String.ofList (n.signed negative))
  float : n.IsReal →
    (∃ x : Double, Double.ofDecimal? negative n.decimal = some x ∧
      result = .ok (.float (.finite x))) ∨
    ∃ error, result = .error error ∧
      error.cause = .numberOutOfRange (String.ofList (n.signed negative))

end Numeral

namespace Grammar

open Text

theorem inRange_iff (i : Int) : Literal.inRange i = true ↔ -2 ^ 63 ≤ i ∧ i ≤ 2 ^ 63 - 1 := by
  simp [Literal.inRange]

section Evaluating

variable {negative : Bool} {n : Numeral}

/-- A numeral of digits alone is evaluated as an integer, if this one fits into
64 bits. -/
theorem evaluate_integer (h : ¬ n.IsReal) (position : Position) :
    (ValueNode.number (String.ofList (n.signed negative)) position).evaluate =
      if Literal.inRange (n.integer negative) then .ok (.integer (n.integer negative))
      else .error ⟨.integerOutOfRange (String.ofList (n.signed negative)), position,
        some (String.ofList (n.signed negative))⟩ := by
  have hMark := Bool.eq_false_iff.mpr (mt n.any_mark_iff.mp h)
  rw [ValueNode.evaluate, Numeral.signed, literalOfDigits_signed (head?_ne_minus n), hMark,
    Numeral.text_of_not_isReal h, if_neg Bool.false_ne_true, ← Numeral.integer]
  cases Literal.inRange (n.integer negative) <;> rfl

/-- A numeral with a fraction or an exponent is evaluated as the nearest double,
if there is one. -/
theorem evaluate_real (h : n.IsReal) (position : Position) :
    (ValueNode.number (String.ofList (n.signed negative)) position).evaluate =
      match Double.ofDecimal? negative n.decimal with
      | some x => .ok (.float (.finite x))
      | none => .error ⟨.numberOutOfRange (String.ofList (n.signed negative)), position,
          some (String.ofList (n.signed negative))⟩ := by
  rw [ValueNode.evaluate, Numeral.signed, literalOfDigits_signed (head?_ne_minus n),
    if_pos (n.any_mark_iff.mpr h), Decimal.ofText?_text]
  dsimp only
  cases Double.ofDecimal? negative n.decimal <;> rfl

/-- Every numeral is evaluated as what it writes. -/
theorem readAs_evaluate (negative : Bool) (n : Numeral) (position : Position) :
    n.ReadAs negative (ValueNode.number (String.ofList (n.signed negative)) position).evaluate := by
  constructor
  · intro hInteger i
    rw [evaluate_integer hInteger]
    split
    · rename_i hRange
      rw [Except.ok.injEq, Literal.integer.injEq]
      constructor
      · rintro rfl
        exact ⟨rfl, (inRange_iff _).mp hRange⟩
      · rintro ⟨rfl, -⟩
        rfl
    · rename_i hRange
      refine ⟨nofun, ?_⟩
      rintro ⟨rfl, hBounds⟩
      exact absurd ((inRange_iff _).mpr hBounds) hRange
  · intro hInteger hBeyond
    rw [evaluate_integer hInteger, if_neg fun hRange => hBeyond ((inRange_iff _).mp hRange)]
    exact ⟨_, rfl, rfl⟩
  · intro hReal
    rw [evaluate_real hReal]
    cases hDouble : Double.ofDecimal? negative n.decimal with
    | some x => exact .inl ⟨x, rfl, rfl⟩
    | none => exact .inr ⟨_, rfl, rfl⟩

/-- A value that is a number without its place is this number at some place. -/
theorem exists_number_of_unplaced {node : ValueNode} {digits : String}
    (h : node.unplaced = .number digits .start) : ∃ position, node = .number digits position := by
  cases node with
  | number found position =>
      obtain rfl : found = digits := (ValueNode.number.inj h).1
      exact ⟨position, rfl⟩
  | string | bool | null | array | name => cases h

/-- Behind a minus sign or not, a numeral is read and evaluated with its
sign. -/
theorem reads_numeral (negative : Bool) (n : Numeral) (rest : List Token) :
    Reads readValue (signedTokens negative n.text ++ rest)
      (fun node => n.ReadAs negative node.evaluate) rest := by
  have hRead := reads_spelledValue (spellsValue_signed negative n.text) rest
  refine hRead.mono fun node hNode => ?_
  obtain ⟨position, rfl⟩ := exists_number_of_unplaced hNode
  exact readAs_evaluate negative n position

end Evaluating

section Tokens

/-- A fraction that is taken is empty, or a point with digits behind it. -/
theorem exists_digits_takeFraction (text : List Char) : ∃ digits : Digits,
    (takeFraction text).1 = if digits.toList = [] then [] else '.' :: digits.toList := by
  fun_cases takeFraction text with
  | case1 | case3 => exact ⟨⟨[], List.forall_mem_nil _⟩, rfl⟩
  | case2 text digits hSome =>
      exact ⟨⟨digits, fun c hc => List.mem_takeWhile_imp hc⟩, (if_neg hSome).symm⟩

/-- What stands behind a whole part and a fraction makes a numeral with them. -/
theorem exists_numeral_takeExponent (whole fraction : Digits) (h : whole.toList ≠ [])
    (text : List Char) : ∃ n : Numeral, n.whole = whole ∧ n.fraction = fraction ∧
      n.exponentText = smallMark (takeExponent text).1 := by
  fun_cases takeExponent text with
  | case1 | case3 => exact ⟨⟨whole, fraction, none, h, by rintro _ ⟨⟩⟩, rfl, rfl, rfl⟩
  | case2 mark text sign afterSign digits hMark =>
      have hSign : ∃ word : ExponentSign, sign = word.text := by
        cases text with
        | nil => exact ⟨.none, rfl⟩
        | cons c more =>
            by_cases hFound : c = '+' ∨ c = '-'
            · rcases hFound with rfl | rfl
              · exact ⟨.plus, rfl⟩
              · exact ⟨.minus, rfl⟩
            · exact ⟨.none, if_neg hFound⟩
      obtain ⟨word, hWord⟩ := hSign
      have hDigits : ∀ c ∈ digits, c.isDigit = true := fun c hc => List.mem_takeWhile_imp hc
      generalize sign = written at hWord ⊢
      generalize digits = run at hMark hDigits ⊢
      refine ⟨⟨whole, fraction, some (word, ⟨run, hDigits⟩), h, ?_⟩, rfl, rfl, ?_⟩
      · rintro _ ⟨⟩
        exact hMark.2
      · have hSmall : smallMark (mark :: (word.text ++ run)) = 'e' :: (word.text ++ run) := by
          have hRun := smallMark_digits ⟨run, hDigits⟩
          rw [smallMark] at hRun ⊢
          rcases hMark.1 with rfl | rfl <;> cases word <;>
            simp [ExponentSign.text, hRun]
        rw [hWord, hSmall]
        rfl

/-- A number is a numeral, up to the case of its exponent mark. -/
theorem exists_numeral_readNumber {first : Char} (h : first.isDigit = true) (text : List Char) :
    ∃ n : Numeral, (readNumber (first :: text)).token = .number (String.ofList n.text) ∧
      smallMark (readNumber (first :: text)).taken = n.text := by
  have hWhole : ∀ c ∈ (first :: text).takeWhile Char.isDigit, c.isDigit = true := fun c hc =>
    List.mem_takeWhile_imp hc
  have hSome : (first :: text).takeWhile Char.isDigit ≠ [] := by simp [h]
  obtain ⟨fraction, hFraction⟩ :=
    exists_digits_takeFraction ((first :: text).dropWhile Char.isDigit)
  obtain ⟨n, hNumeral, rfl, hExponent⟩ := exists_numeral_takeExponent ⟨_, hWhole⟩ fraction hSome
    (takeFraction ((first :: text).dropWhile Char.isDigit)).2
  have hText : n.text = (first :: text).takeWhile Char.isDigit ++
      ((takeFraction ((first :: text).dropWhile Char.isDigit)).1 ++
        smallMark (takeExponent (takeFraction ((first :: text).dropWhile Char.isDigit)).2).1) := by
    rw [Numeral.text, hNumeral, hExponent, hFraction, Numeral.fractionText]
  have hSmall : smallMark n.fractionText = n.fractionText := by
    refine smallMark_eq_self fun hc => ?_
    rw [Numeral.fractionText] at hc
    split at hc
    · cases hc
    · obtain hEq | hDigit := List.mem_cons.mp hc
      · exact absurd hEq (by decide)
      · exact absurd (n.fraction.isDigit _ hDigit) (by decide)
  refine ⟨n, ?_, ?_⟩
  · rw [hText]
    simp only [readNumber, List.append_assoc, smallMark]
  · rw [hText]
    simp only [readNumber, List.append_assoc]
    rw [Numeral.fractionText, ← hFraction] at hSmall
    have hDigits := smallMark_digits ⟨_, hWhole⟩
    simp only [smallMark, List.map_append] at hSmall hDigits ⊢
    rw [hSmall, hDigits]

/-- Only where a digit is next a number is read. -/
theorem isDigit_of_readToken {first : Char} {text : List Char} {reading : Reading} {digits : String}
    (h : readToken first text = .ok reading) (hNumber : reading.token = .number digits) :
    first.isDigit = true ∧ reading = readNumber (first :: text) := by
  rw [readToken] at h
  split at h
  · rename_i hDigit
    exact ⟨hDigit, (Except.ok.inj h).symm⟩
  split at h
  · split at h
    · rename_i found hString
      obtain rfl := Except.ok.inj h
      obtain ⟨_, _, rfl⟩ := Option.map_eq_some_iff.mp hString
      cases hNumber
    · cases h
  split at h
  · obtain rfl := Except.ok.inj h
    simp only [readName] at hNumber
    split at hNumber <;> cases hNumber
  split at h
  · rename_i found hMark
    obtain rfl := Except.ok.inj h
    obtain ⟨m, hToken, _⟩ := exists_mark_of_readMark hMark
    rw [hToken] at hNumber
    cases hNumber
  · split at h <;> cases h

/-- Every number token of a text is a numeral, written as it stands there. -/
theorem Lexeme.WasRead.exists_numeral {lexeme : Lexeme} (h : lexeme.WasRead) {digits : String}
    (hToken : lexeme.token = .number digits) :
    ∃ n : Numeral, digits = String.ofList n.text ∧ smallMark lexeme.text.toList = n.text := by
  obtain ⟨first, text, reading, hReading, hSame, hText⟩ := h
  obtain ⟨hDigit, rfl⟩ := isDigit_of_readToken hReading (hSame.symm.trans hToken)
  obtain ⟨n, hNumber, hTaken⟩ := exists_numeral_readNumber hDigit text
  refine ⟨n, ?_, by rw [hText, String.toList_ofList, hTaken]⟩
  exact Token.number.inj ((hToken.symm.trans hSame).trans hNumber)

end Tokens

section Counting

/-- A value that writes a whole number. -/
def ValueNode.Writes (node : ValueNode) (i : Int) : Prop :=
  ∃ negative, ∃ n : Numeral, ∃ position, ¬ n.IsReal ∧ n.integer negative = i ∧
    node = .number (String.ofList (n.signed negative)) position

/-- A value that is no number, or a numeral behind a minus sign or none. -/
def ValueNode.Numeric (node : ValueNode) : Prop :=
  ∀ digits position, node = .number digits position →
    ∃ negative, ∃ n : Numeral, digits = String.ofList (n.signed negative)

/-- The count of a clause is the number written behind it, from a least one on
and within the range of integers. A clause that is not there counts nothing. -/
inductive Counts (least : Nat) : Option ValueNode → Option Nat → Prop where
  | absent : Counts least none none
  | present {node : ValueNode} {count : Nat} (hWrites : node.Writes count) (hLeast : least ≤ count)
      (hMost : count ≤ 2 ^ 63 - 1) : Counts least (some node) (some count)

variable {node : ValueNode}

/-- A numeral has the value of an integer exactly if it writes it and it is in
range. -/
theorem evaluate_eq_integer_iff (h : node.Numeric) {i : Int} :
    node.evaluate = .ok (.integer i) ↔ node.Writes i ∧ -2 ^ 63 ≤ i ∧ i ≤ 2 ^ 63 - 1 := by
  constructor
  · intro hEvaluate
    cases node with
    | number digits position =>
        obtain ⟨negative, n, rfl⟩ := h digits position rfl
        have hReadAs := readAs_evaluate negative n position
        by_cases hReal : n.IsReal
        · obtain ⟨x, _, hFloat⟩ | ⟨error, hError, _⟩ := hReadAs.float hReal
          · cases hFloat.symm.trans hEvaluate
          · cases hError.symm.trans hEvaluate
        · obtain ⟨rfl, hRange⟩ := (hReadAs.integer hReal i).mp hEvaluate
          exact ⟨⟨negative, n, position, hReal, rfl, rfl⟩, hRange⟩
    | array items position =>
        rw [ValueNode.evaluate] at hEvaluate
        obtain ⟨_, _, hArray⟩ := passed hEvaluate
        cases hArray
    | string text position | bool b position | null position | name text position =>
        cases hEvaluate
  · rintro ⟨⟨negative, n, position, hReal, rfl, rfl⟩, hRange⟩
    exact ((readAs_evaluate negative n position).integer hReal _).mpr ⟨rfl, hRange⟩

/-- A numeral is a bound exactly if it writes a natural number in range. -/
theorem evaluateCount_eq_ok_iff (h : node.Numeric) {clause : Keyword} {count : Nat} :
    node.evaluateCount clause = .ok count ↔ node.Writes count ∧ count ≤ 2 ^ 63 - 1 := by
  have hIff := @evaluate_eq_integer_iff node h count
  constructor
  · intro hCount
    have hMost := evaluateCount_lt hCount
    obtain ⟨literal, hLiteral, hCount⟩ := passed hCount
    split at hCount
    · cases hCount
      exact ⟨(hIff.mp hLiteral).1, by omega⟩
    · cases hCount
  · rintro ⟨hWrites, hMost⟩
    rw [ValueNode.evaluateCount, hIff.mpr ⟨hWrites, by omega, by omega⟩]
    rfl

/-- A numeral is the size of a page exactly if it writes a positive number in
range. -/
theorem evaluatePage_eq_ok_iff (h : node.Numeric) {size : Nat} :
    node.evaluatePage = .ok size ↔ node.Writes size ∧ 1 ≤ size ∧ size ≤ 2 ^ 63 - 1 := by
  have hIff := @evaluateCount_eq_ok_iff node h .page size
  constructor
  · intro hPage
    obtain ⟨found, hFound, hSize⟩ := passed hPage
    split at hSize
    · cases hSize
    · rename_i hPositive
      cases hSize
      obtain ⟨hWrites, hMost⟩ := hIff.mp hFound
      exact ⟨hWrites, Nat.pos_of_ne_zero hPositive, hMost⟩
  · rintro ⟨hWrites, hLeast, hMost⟩
    rw [ValueNode.evaluatePage, hIff.mpr ⟨hWrites, hMost⟩]
    exact if_neg (Nat.ne_of_gt hLeast)

/-- A clause counts what is written behind it, if its check accepts just
that. -/
theorem counts_iff {check : ValueNode → Except SyntaxError Nat} {least : Nat}
    {value : Option ValueNode} {count : Option Nat}
    (h : ∀ node ∈ value, ∀ n, check node = .ok n ↔ node.Writes n ∧ least ≤ n ∧ n ≤ 2 ^ 63 - 1) :
    value.mapM check = .ok count ↔ Counts least value count := by
  cases value with
  | none =>
      constructor
      · intro hNone
        cases hNone
        exact .absent
      · rintro ⟨⟩
        rfl
  | some node =>
      constructor
      · intro hSome
        obtain ⟨n, hCheck, hCount⟩ := passed hSome
        cases hCount
        obtain ⟨hWrites, hLeast, hMost⟩ := (h node rfl n).mp hCheck
        exact .present hWrites hLeast hMost
      · intro hCounts
        cases hCounts with
        | present hWrites hLeast hMost =>
            rw [Option.mapM_some, (h node rfl _).mpr ⟨hWrites, hLeast, hMost⟩]
            rfl

/-- The digits that lexemes of a text leave in a statement are a numeral. -/
theorem Trace.LeftBy.exists_numeral {text : String} {tokens : Tokens}
    (hScan : scan text = .ok tokens)
    {trace : Trace} (h : trace.LeftBy tokens.lexemes) {digits : String}
    (hDigits : trace.digits = some digits) :
    ∃ negative, ∃ n : Numeral, digits = String.ofList (n.signed negative) := by
  obtain ⟨lexeme, hLexeme, unsigned, hToken, hSign⟩ := h.digits digits hDigits
  obtain ⟨n, rfl, _⟩ := (wasRead_of_scanWithin hScan lexeme hLexeme).exists_numeral hToken
  rcases hSign with rfl | rfl
  · exact ⟨false, n, rfl⟩
  · exact ⟨true, n, by simp [Numeral.signed, String.ofList_cons]⟩

/-- In a select that a text spells, the values behind `limit` and `page` have
their digits from it. -/
theorem numeric_of_ofTokens {text : String} {tokens : Tokens} (h : scan text = .ok tokens)
    {node : SelectNode} (hNode : Statement.ofTokens tokens = .ok (.select node)) :
    (∀ value ∈ node.limit, value.Numeric) ∧ ∀ value ∈ node.page, value.Numeric := by
  have hNumeric (value : ValueNode) (hTraces : value.traces ⊆ node.traces) : value.Numeric := by
    rintro digits position rfl
    exact (leave_of_ofTokens hNode _ (hTraces List.mem_cons_self)).exists_numeral h rfl
  refine ⟨fun value hValue => hNumeric value fun _ hTrace => ?_,
    fun value hValue => hNumeric value fun _ hTrace => ?_⟩
  · simp [SelectNode.traces, Option.mem_def.mp hValue, hTrace]
  · simp [SelectNode.traces, Option.mem_def.mp hValue, hTrace]

theorem bind_eq_ok_iff {ε α β : Type} {check : Except ε α} {next : α → Except ε β} {result : β} :
    (check >>= next) = .ok result ↔ ∃ a, check = .ok a ∧ next a = .ok result := by
  refine ⟨passed, ?_⟩
  rintro ⟨a, rfl, hNext⟩
  exact hNext

/-- A select is meant if its clauses count and the rest of it is meant. -/
theorem toSelect_eq_ok_iff {node : SelectNode} {q : Select}
    (hLimit : ∀ value ∈ node.limit, value.Numeric) (hPage : ∀ value ∈ node.page, value.Numeric) :
    node.toSelect = .ok q ↔ Counts 0 node.limit q.limit ∧ Counts 1 node.page q.page ∧
      { node with limit := none, page := none }.toSelect =
        .ok { q with limit := none, page := none } := by
  have hLimitIff : node.limit.mapM (ValueNode.evaluateCount .limit) = .ok q.limit ↔
      Counts 0 node.limit q.limit :=
    counts_iff fun value hValue n => by simp [evaluateCount_eq_ok_iff (hLimit value hValue)]
  have hPageIff : node.page.mapM ValueNode.evaluatePage = .ok q.page ↔ Counts 1 node.page q.page :=
    counts_iff fun value hValue n => evaluatePage_eq_ok_iff (hPage value hValue)
  rw [← hLimitIff, ← hPageIff]
  unfold SelectNode.toSelect
  obtain ⟨subject, clauses, projection, limit, page, order, group, aggregate, output⟩ := q
  by_cases hWhere : node.subject.toSubject.kind = .document ∧ node.predicates.isSome = true
  · simp only [if_pos hWhere]
    constructor
    · intro hRefused
      cases hRefused
    · rintro ⟨-, -, hRefused⟩
      cases hRefused
  · simp only [if_neg hWhere, bind_eq_ok_iff]
    constructor
    · rintro ⟨_, hProjection, _, hClauses, _, hCount, _, hSize, _, hAggregate, _, hOutput, hSame⟩
      cases hSame
      exact ⟨hCount, hSize, _, hProjection, _, hClauses, _, rfl, _, rfl, _, hAggregate, _, hOutput,
        rfl⟩
    · rintro ⟨hCount, hSize, _, hProjection, _, hClauses, _, _, _, _, _, hAggregate, _, hOutput,
        hSame⟩
      cases hSame
      exact ⟨_, hProjection, _, hClauses, _, hCount, _, hSize, _, hAggregate, _, hOutput, rfl⟩

end Counting

/-- Numbers are read exactly or not at all. A numeral behind a minus sign or
none is read as its value if it is in range, every number token of a text is a
numeral as it stands there, and a select that a text spells is meant just with
the counts that are written behind `limit`, from zero on, and `page`, from one
on. -/
theorem numbers_read_exactly :
    (∀ negative (n : Numeral) rest, Reads readValue (signedTokens negative n.text ++ rest)
      (fun node => n.ReadAs negative node.evaluate) rest) ∧
    (∀ text tokens, scan text = .ok tokens → ∀ lexeme ∈ tokens.lexemes, ∀ digits,
      lexeme.token = .number digits →
        ∃ n : Numeral, digits = String.ofList n.text ∧ smallMark lexeme.text.toList = n.text) ∧
    ∀ text node, Statement.ofText text = .ok (.select node) →
      (∀ q, Query.ofText text = .ok (.select q) ↔
        Counts 0 node.limit q.limit ∧ Counts 1 node.page q.page ∧
          { node with limit := none, page := none }.toSelect =
            .ok { q with limit := none, page := none }) ∧
      ((∀ count, ¬ Counts 0 node.limit count) ∨ (∀ count, ¬ Counts 1 node.page count) →
        ∃ error, Query.ofText text = .error error) := by
  refine ⟨reads_numeral, fun text tokens hScan lexeme hLexeme digits hToken =>
    (wasRead_of_scanWithin hScan lexeme hLexeme).exists_numeral hToken, fun text node hNode => ?_⟩
  obtain ⟨tokens, hScan, hTree⟩ := passed hNode
  obtain ⟨hLimit, hPage⟩ := numeric_of_ofTokens hScan hTree
  have hMeaning : Query.ofText text = node.toSelect >>= fun q => pure (.select q) := by
    rw [Query.ofText, hNode]
    rfl
  have hIff (q : Select) : Query.ofText text = .ok (.select q) ↔ node.toSelect = .ok q := by
    rw [hMeaning, bind_eq_ok_iff]
    constructor
    · rintro ⟨found, hFound, hSame⟩
      cases hSame
      exact hFound
    · intro hFound
      exact ⟨q, hFound, rfl⟩
  refine ⟨fun q => (hIff q).trans (toSelect_eq_ok_iff hLimit hPage), fun hNone => ?_⟩
  cases hSelect : node.toSelect with
  | error error => exact ⟨error, by rw [hMeaning, hSelect]; rfl⟩
  | ok q =>
      obtain ⟨hCount, hSize, -⟩ := (toSelect_eq_ok_iff hLimit hPage).mp hSelect
      obtain hNever | hNever := hNone
      · exact absurd hCount (hNever q.limit)
      · exact absurd hSize (hNever q.page)

/-- An integer of these digits. -/
def wholeNumeral (digits : List Char) (h : digits.all Char.isDigit = true ∧ digits ≠ []) :
    Numeral :=
  ⟨⟨digits, List.all_eq_true.mp h.1⟩, ⟨[], nofun⟩, none, h.2, nofun⟩

theorem not_isReal_wholeNumeral (digits : List Char)
    (h : digits.all Char.isDigit = true ∧ digits ≠ []) : ¬ (wholeNumeral digits h).IsReal := by
  simp [Numeral.IsReal, wholeNumeral]

/-- What is written behind `limit` and `page` in a select of a whole collection
that has both. -/
def Statement.writtenCounts? : Except SyntaxError Statement → Option (String × String)
  | .ok (.select ⟨.star, ⟨.from, _, _⟩, none, none, some (.number limit _), some (.number page _),
      none, none, none, _⟩) => some (limit, page)
  | _ => none

/-- The least integer, whose digits alone are out of range, an exponent with a
capital mark, a count with zeros in front, and the largest count. -/
theorem numbers_read_exactly_largest :
    Reads readValue [.mark .minus, .number "9223372036854775808"]
      (fun node => node.evaluate = .ok (.integer (-9223372036854775808))) [] ∧
    (∃ tokens, scan "2E3" = .ok tokens ∧ ∀ lexeme ∈ tokens.lexemes,
      ∃ n : Numeral, smallMark lexeme.text.toList = n.text) ∧
    ∃ node q, Statement.ofText "select * from c limit 007 page 9223372036854775807" =
        .ok (.select node) ∧
      Query.ofText "select * from c limit 007 page 9223372036854775807" = .ok (.select q) ∧
      q.limit = some 7 ∧ q.page = some 9223372036854775807 := by
  obtain ⟨hReads, hTokens, hSelect⟩ := numbers_read_exactly
  refine ⟨?_, ?_, ?_⟩
  · refine (hReads true (wholeNumeral "9223372036854775808".toList (by decide)) []).mono
      fun node hReadAs => (hReadAs.integer (not_isReal_wholeNumeral _ _) _).mpr
        ⟨?_, by decide, by decide⟩
    decide +kernel
  · have hScan : scan "2E3" = .ok ⟨[⟨.number "2e3", ⟨0, 1, 1⟩, "2E3"⟩], ⟨3, 1, 4⟩⟩ := rfl
    refine ⟨_, hScan, fun lexeme hLexeme => ?_⟩
    have hNumber : lexeme.token = .number "2e3" := by rw [List.mem_singleton.mp hLexeme]
    obtain ⟨n, _, hText⟩ := hTokens _ _ hScan lexeme hLexeme "2e3" hNumber
    exact ⟨n, hText⟩
  · have hNode : Statement.writtenCounts?
        (Statement.ofText "select * from c limit 007 page 9223372036854775807") =
          some ("007", "9223372036854775807") := by
      decide +kernel
    unfold Statement.writtenCounts? at hNode
    split at hNode
    · rename_i collection subjectPlace limit limitPlace page pagePlace place hRead
      obtain ⟨rfl, rfl⟩ := Prod.mk.inj (Option.some.inj hNode)
      refine ⟨_, ⟨⟨collection, .collection⟩, [], .all, some 7, some 9223372036854775807, [], none,
        none, none⟩, hRead, ((hSelect _ _ hRead).1 _).mpr ⟨?_, ?_, rfl⟩, rfl, rfl⟩
      · exact .present ⟨false, wholeNumeral ['0', '0', '7'] (by decide), limitPlace,
          not_isReal_wholeNumeral _ _, rfl, rfl⟩ (by decide) (by decide)
      · exact .present ⟨false, wholeNumeral "9223372036854775807".toList (by decide), pagePlace,
          not_isReal_wholeNumeral _ _, by decide +kernel, rfl⟩ (by decide) (by decide)
    · cases hNode

end Grammar

end DocQuery
