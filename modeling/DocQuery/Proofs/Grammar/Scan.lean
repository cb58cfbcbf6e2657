import DocQuery.Grammar.Scan
import DocQuery.Proofs.Number.Numeral

/-! Texts that are read as given tokens, built up from the back: a blank or the
text of one token is put in front of a text that is already read. What follows a
token must not make it longer. -/
namespace DocQuery.Grammar

open Text

/-- A text is read as these tokens, wherever it begins and with any budget that
is large enough. -/
def Scans (text : List Char) (tokens : List Token) : Prop :=
  ∀ budget position, text.length < budget →
    ∃ found, scanWithin budget position text = .ok found ∧
      found.lexemes.map Lexeme.token = tokens

/-- The whole text is read from its start. -/
theorem Scans.scan_eq {text : String} {tokens : List Token} (h : Scans text.toList tokens) :
    ∃ found, scan text = .ok found ∧ found.lexemes.map Lexeme.token = tokens :=
  h _ _ (Nat.lt_succ_self _)

theorem scans_nil : Scans [] [] := by
  intro budget position hBudget
  obtain ⟨budget, rfl⟩ := Nat.exists_eq_succ_of_ne_zero (Nat.ne_of_gt hBudget)
  exact ⟨⟨[], position⟩, rfl, rfl⟩

/-- White space in front of a text only moves its place. -/
theorem Scans.blank {rest : List Char} {tokens : List Token} (h : Scans rest tokens) {c : Char}
    (hBlank : isBlank c = true) : Scans (c :: rest) tokens := by
  intro budget position hBudget
  obtain ⟨budget, rfl⟩ := Nat.exists_eq_succ_of_ne_zero (Nat.ne_of_gt (Nat.zero_lt_of_lt hBudget))
  have hMinus : (c == '-') = false := beq_eq_false_iff_ne.mpr fun hEq => by
    rw [hEq] at hBlank
    exact absurd hBlank (by decide)
  have hLayout : takeLayout false (c :: rest) =
      (c :: (takeLayout false rest).1, (takeLayout false rest).2) := by
    rw [takeLayout]
    simp [hBlank, hMinus]
  have hMoved : scanWithin (budget + 1) position (c :: rest) =
      scanWithin (budget + 1) (position.next c) rest := by
    simp only [scanWithin, hLayout, Position.after, List.foldl_cons]
  rw [hMoved]
  exact h (budget + 1) (position.next c) (Nat.lt_of_succ_lt hBudget)

/-- A token in front of a text that is already read. -/
theorem Scans.token {first : Char} {more rest : List Char} {token : Token}
    {tokens : List Token} (h : Scans rest tokens) (hBlank : isBlank first = false)
    (hComment : first = '-' → more.head? ≠ some '-')
    (hRead : ∃ taken, readToken first more = .ok ⟨token, taken, rest⟩)
    (hLength : rest.length ≤ more.length) : Scans (first :: more) (token :: tokens) := by
  intro budget position hBudget
  obtain ⟨budget, rfl⟩ := Nat.exists_eq_succ_of_ne_zero (Nat.ne_of_gt (Nat.zero_lt_of_lt hBudget))
  obtain ⟨taken, hRead⟩ := hRead
  have hNoComment : (first == '-' && more.head? == some '-') = false := by
    by_cases hMinus : first = '-'
    · simp [hComment hMinus]
    · simp [hMinus]
  have hLayout : takeLayout false (first :: more) = ([], first :: more) := by
    rw [takeLayout]
    simp [hBlank, hNoComment]
  obtain ⟨found, hFound, hTokens⟩ := h budget (position.after taken)
    (Nat.lt_of_le_of_lt hLength (Nat.lt_of_succ_lt_succ hBudget))
  refine ⟨⟨⟨token, position, String.ofList taken⟩ :: found.lexemes, found.finish⟩, ?_, ?_⟩
  · simp only [scanWithin, hLayout, hRead, Position.after, List.foldl_nil]
    rw [← Position.after, hFound]
    rfl
  · simp [hTokens]

/-- A quoted text ends with its own quote, so anything may follow it. -/
theorem Scans.quote {rest : List Char} {tokens : List Token} (h : Scans rest tokens)
    (text : String) : Scans ((Text.quote text).toList ++ rest) (.string text :: tokens) := by
  have hList : (Text.quote text).toList ++ rest =
      '"' :: (text.toList.flatMap escape ++ '"' :: rest) := by
    simp [Text.quote]
  rw [hList]
  obtain ⟨taken, hRead⟩ : ∃ taken, readString '"' (text.toList.flatMap escape ++ '"' :: rest) =
      some ⟨.string text, taken, rest⟩ := by
    simp [readString, unquote_flatMap_escape]
  refine h.token (by decide) (fun hEq => absurd hEq (by decide)) ⟨taken, ?_⟩ ?_
  · simp only [readToken, hRead]
    rfl
  · simp only [List.length_append, List.length_cons]
    omega

/-- The characters that stand behind words and numbers in canonical texts. -/
def isDelimiter (c : Char) : Bool :=
  c ∈ [' ', ',', ']', '(', ')']

/-- A text is empty or goes on with a delimiter. -/
def Delimited (rest : List Char) : Prop :=
  ∀ c ∈ rest.head?, isDelimiter c = true

theorem delimited_nil : Delimited [] := by
  intro c hc
  cases hc

theorem delimited_cons {c : Char} (h : isDelimiter c = true) (rest : List Char) :
    Delimited (c :: rest) := by
  intro d hd
  cases hd
  exact h

/-- No delimiter belongs to a class that holds at none of the five. -/
theorem Delimited.stopsAt {rest : List Char} (h : Delimited rest) {class? : Char → Bool}
    (hClass : [' ', ',', ']', '(', ')'].all (fun c => !class? c) = true) :
    StopsAt class? rest := by
  intro c hc
  have hMember : c ∈ [' ', ',', ']', '(', ')'] := by simpa [isDelimiter] using h c hc
  simpa using List.all_eq_true.mp hClass c hMember

/-- Whether a mark ends before a character: no longer mark and no comment begins
there. -/
def Mark.endsBefore : Mark → Char → Bool
  | .assign, c => c != '='
  | .lessThan, c => c != '='
  | .greaterThan, c => c != '='
  | .minus, c => c != '-'
  | _, _ => true

/-- No mark goes on with a character that ends a token. -/
theorem Mark.endsBefore_of_isDelimiter (m : Mark) {c : Char} (h : isDelimiter c = true) :
    m.endsBefore c = true := by
  simp only [isDelimiter, List.mem_cons, List.not_mem_nil, or_false, decide_eq_true_eq] at h
  rcases h with rfl | rfl | rfl | rfl | rfl <;> cases m <;> rfl

/-- A mark is read in front of a text that does not begin with the rest of a
longer mark. -/
theorem Scans.mark {rest : List Char} {tokens : List Token} (h : Scans rest tokens) (m : Mark)
    (hEnds : ∀ c ∈ rest.head?, m.endsBefore c = true) :
    Scans (m.spelling.toList ++ rest) (.mark m :: tokens) := by
  have hRead : readMark (m.spelling.toList ++ rest) =
      some ⟨.mark m, m.spelling.toList, rest⟩ := by
    cases rest with
    | nil => cases m <;> rfl
    | cons c rest =>
        have hEnds := hEnds c rfl
        cases m <;> simp_all [Mark.spelling, Mark.endsBefore, readMark]
  have hHead : ∃ first more, m.spelling.toList = first :: more ∧ first.isDigit = false ∧
      first ≠ '"' ∧ first ≠ '\'' ∧ isNameStart first = false ∧ isBlank first = false ∧
      (first = '-' → m = .minus ∧ more = []) := by
    cases m <;> exact ⟨_, _, rfl, by decide, by decide, by decide, by decide, by decide, by decide⟩
  obtain ⟨first, more, hSpelling, hDigit, hQuote, hApostrophe, hName, hBlank, hMinus⟩ := hHead
  rw [hSpelling, List.cons_append] at hRead ⊢
  refine h.token hBlank (fun hEq => ?_) ⟨first :: more, ?_⟩ (by simp)
  · obtain ⟨rfl, rfl⟩ := hMinus hEq
    intro hDash
    exact absurd (hEnds '-' hDash) (by decide)
  · simp [readToken, hDigit, hQuote, hApostrophe, hName, hRead]

/-- A word is taken up to where it cannot go on. -/
theorem takeName_append {name rest : List Char} (hName : ∀ c ∈ name, isNameChar c = true)
    (hRest : StopsAt (fun c => isNameChar c || c == '.') rest) :
    takeName (name ++ rest) = (name, rest) := by
  induction name with
  | nil =>
      cases rest with
      | nil => rfl
      | cons c rest =>
          have hStop := hRest c rfl
          simp only [Bool.or_eq_false_iff] at hStop
          rw [List.nil_append, takeName]
          simp [hStop]
  | cons c name ih =>
      have hMore := ih fun d hd => hName d (List.mem_cons_of_mem _ hd)
      rw [List.cons_append, takeName, hMore]
      simp [hName c List.mem_cons_self]

/-- The token that a word of letters is read as. -/
def wordToken (word : String) : Token :=
  ((Keyword.ofWord? word).map Token.keyword).getD (.identifier word)

/-- An ASCII letter begins a name and nothing else. -/
theorem starts_of_isAlpha {c : Char} (h : c.isAlpha = true) :
    isNameStart c = true ∧ c.isDigit = false ∧ isBlank c = false ∧ c ≠ '"' ∧
      c ≠ '\'' ∧ c ≠ '-' := by
  have hNot (d : Char) (hd : d.isAlpha = false) : c ≠ d := fun hEq => by simp [hEq, hd] at h
  have hRange := toNat_of_isAlpha h
  refine ⟨by simp [isNameStart, isLetter_of_isAlpha h], ?_, ?_, hNot '"' (by decide),
    hNot '\'' (by decide), hNot '-' (by decide)⟩
  · have hNine : '9'.val.toNat = 57 := rfl
    have hCode : c.toNat = c.val.toNat := rfl
    simp only [Char.isDigit, Bool.and_eq_false_iff, decide_eq_false_iff_not, UInt32.le_iff_toNat_le]
    omega
  · simp only [isBlank, Bool.or_eq_false_iff, Bool.and_eq_false_iff, decide_eq_false_iff_not,
      beq_eq_false_iff_ne]
    omega

/-- A word of letters and underscores that begins with a letter. -/
def isWord (word : String) : Bool :=
  match word.toList with
  | [] => false
  | first :: more => first.isAlpha && more.all fun c => c.isAlpha || c == '_'

/-- A word begins with a letter and goes on with what a name may hold. -/
theorem exists_of_isWord {word : String} (h : isWord word = true) : ∃ first more,
    word.toList = first :: more ∧ first.isAlpha = true ∧ ∀ c ∈ more, isNameChar c = true := by
  unfold isWord at h
  split at h
  · cases h
  · rename_i first more hList
    rw [Bool.and_eq_true, List.all_eq_true] at h
    refine ⟨first, more, hList, h.1, fun c hc => ?_⟩
    obtain hLetter | hUnderscore := Bool.or_eq_true_iff.mp (h.2 c hc)
    · simp [isNameChar, isLetter_of_isAlpha hLetter]
    · simp [isNameChar, hUnderscore]

/-- A word is read in front of a text that begins with what ends a token. -/
theorem Scans.word {rest : List Char} {tokens : List Token} (h : Scans rest tokens)
    (hRest : Delimited rest) {word : String} (hIsWord : isWord word = true) :
    Scans (word.toList ++ rest) (wordToken word :: tokens) := by
  obtain ⟨first, more, hWord, hFirst, hMore⟩ := exists_of_isWord hIsWord
  obtain ⟨hName, hDigit, hBlank, hQuote, hApostrophe, hMinus⟩ := starts_of_isAlpha hFirst
  have hTake := takeName_append hMore (hRest.stopsAt (by decide))
  have hOfList : String.ofList (first :: more) = word := by rw [← hWord, String.ofList_toList]
  rw [hWord, List.cons_append]
  refine h.token hBlank (fun hEq => absurd hEq hMinus) ⟨first :: more, ?_⟩ (by simp)
  simp only [readToken, hDigit, hQuote, hApostrophe, hName, readName, hTake, hOfList, wordToken]
  cases Keyword.ofWord? word <;> simp

theorem ofWord?_word (k : Keyword) : Keyword.ofWord? k.word = some k := by
  cases k <;> decide +kernel

theorem Scans.keyword {rest : List Char} {tokens : List Token} (h : Scans rest tokens)
    (hRest : Delimited rest) (k : Keyword) :
    Scans (k.word.toList ++ rest) (.keyword k :: tokens) := by
  have hWord : isWord k.word = true := by
    cases k <;> decide +kernel
  have hScans := h.word hRest hWord
  simpa [wordToken, ofWord?_word] using hScans

theorem takeExponent_text (n : Numeral) {rest : List Char}
    (hRest : StopsAt Numeral.continues rest) :
    takeExponent (n.exponentText ++ rest) = (n.exponentText, rest) := by
  have hDigit : StopsAt Char.isDigit rest := hRest.mono fun c hc => by simp [Numeral.continues, hc]
  cases hExponent : n.exponent with
  | none =>
      rw [Numeral.exponentText, hExponent, List.nil_append]
      cases rest with
      | nil => rfl
      | cons c rest =>
          have hStop := hRest c rfl
          simp only [Numeral.continues, Bool.or_eq_false_iff, beq_eq_false_iff_ne] at hStop
          simp [takeExponent, hStop]
  | some e =>
      obtain ⟨sign, digits⟩ := e
      have hNonempty : digits.toList ≠ [] := n.exponent_ne_nil _ hExponent
      have hTake := digits.takeWhile_append hDigit
      have hDrop := digits.dropWhile_append hDigit
      rw [Numeral.exponentText, hExponent]
      cases sign with
      | plus => simp [takeExponent, ExponentSign.text, hTake, hDrop, hNonempty]
      | minus => simp [takeExponent, ExponentSign.text, hTake, hDrop, hNonempty]
      | none =>
          obtain ⟨c, more, hList⟩ := List.exists_cons_of_ne_nil hNonempty
          have hFirst : c.isDigit = true := digits.isDigit c (by simp [hList])
          have hPlus : c ≠ '+' := fun hEq => by simp [hEq] at hFirst
          have hMinus : c ≠ '-' := fun hEq => by simp [hEq] at hFirst
          rw [hList] at hTake hDrop
          simp only [List.cons_append] at hTake hDrop
          simp [takeExponent, ExponentSign.text, hList, hPlus, hMinus, hTake, hDrop]

theorem takeFraction_text (n : Numeral) {rest : List Char}
    (hRest : StopsAt Numeral.continues rest) :
    takeFraction (n.fractionText ++ (n.exponentText ++ rest)) =
      (n.fractionText, n.exponentText ++ rest) := by
  have hHead := n.stopsAt_exponentText hRest
  by_cases hFraction : n.fraction.toList = []
  · rw [Numeral.fractionText, if_pos hFraction, List.nil_append]
    unfold takeFraction
    split
    · rename_i tail hText
      rw [hText] at hHead
      exact absurd (hHead '.' rfl) (by decide)
    · rfl
  · have hDigit : StopsAt Char.isDigit (n.exponentText ++ rest) :=
      hHead.mono fun c hc => by simp [hc]
    simp [Numeral.fractionText, hFraction, takeFraction, n.fraction.takeWhile_append hDigit,
      n.fraction.dropWhile_append hDigit]

/-- A number with its exponent mark in lower case. -/
def smallMark (text : List Char) : List Char :=
  text.map fun c => if c = 'E' then 'e' else c

theorem smallMark_eq_self {text : List Char} (h : 'E' ∉ text) : smallMark text = text := by
  refine (List.map_congr_left fun c hc => ?_).trans (List.map_id _)
  exact if_neg fun (hEq : c = 'E') => h (hEq ▸ hc)

theorem smallMark_digits (digits : Digits) : smallMark digits.toList = digits.toList :=
  smallMark_eq_self fun hc => absurd (digits.isDigit _ hc) (by decide)

/-- The digits that a number token keeps are those it is written with. -/
theorem readNumber_text (n : Numeral) {rest : List Char} (hRest : StopsAt Numeral.continues rest) :
    readNumber (n.text ++ rest) = ⟨.number (String.ofList n.text), n.text, rest⟩ := by
  have hTail := n.stopsAt_tail hRest
  have hSmall := smallMark_eq_self n.capital_notMem_exponentText
  rw [smallMark] at hSmall
  have hText : n.text ++ rest =
      n.whole.toList ++ (n.fractionText ++ (n.exponentText ++ rest)) := by
    simp [Numeral.text]
  simp only [readNumber, hText, n.whole.takeWhile_append hTail, n.whole.dropWhile_append hTail,
    takeFraction_text n hRest, takeExponent_text n hRest, hSmall]
  simp [Numeral.text]

theorem toNat_of_isDigit {c : Char} (h : c.isDigit = true) : 48 ≤ c.toNat ∧ c.toNat ≤ 57 := by
  simp only [Char.isDigit, Bool.and_eq_true, decide_eq_true_eq, ge_iff_le,
    UInt32.le_iff_toNat_le] at h
  exact h

theorem isBlank_of_isDigit {c : Char} (h : c.isDigit = true) : isBlank c = false := by
  have hRange := toNat_of_isDigit h
  simp only [isBlank, Bool.or_eq_false_iff, Bool.and_eq_false_iff, decide_eq_false_iff_not,
    beq_eq_false_iff_ne]
  omega

/-- A numeral is read in front of a text that begins with what ends a token. -/
theorem Scans.numeral {rest : List Char} {tokens : List Token} (h : Scans rest tokens)
    (hRest : Delimited rest) (n : Numeral) :
    Scans (n.text ++ rest) (.number (String.ofList n.text) :: tokens) := by
  have hRead := readNumber_text n (hRest.stopsAt (by decide))
  obtain ⟨c, more, hList⟩ := List.exists_cons_of_ne_nil n.whole_ne_nil
  have hDigit : c.isDigit = true := n.whole.isDigit c (by simp [hList])
  have hText : n.text = c :: (more ++ (n.fractionText ++ n.exponentText)) := by
    simp [Numeral.text, hList]
  rw [hText, List.cons_append] at hRead ⊢
  refine h.token (isBlank_of_isDigit hDigit) (fun hEq => ?_)
    ⟨c :: (more ++ (n.fractionText ++ n.exponentText)), ?_⟩ ?_
  · rw [hEq] at hDigit
    exact absurd hDigit (by decide)
  · rw [readToken, if_pos hDigit, hRead]
  · simp only [List.length_append]
    omega

end DocQuery.Grammar
