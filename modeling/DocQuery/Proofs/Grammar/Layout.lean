import DocQuery.Proofs.Grammar.Coverage
import DocQuery.Proofs.Grammar.Scan
import DocQuery.Proofs.Text.Case

/-! Tokens set apart anew. White space ends every token, so what was read at the
front of one text is read again where the same characters stand in front of
white space; and a keyword is read again in any case. So a text whose tokens
stand in another layout has the same tokens. -/
namespace DocQuery.Grammar

open Text

/-- No white space stands inside a name. -/
theorem isNameChar_of_isBlank {c : Char} (h : isBlank c = true) : isNameChar c = false := by
  have hUnderscore : (c == '_') = false := beq_eq_false_iff_ne.mpr fun hEq => by
    rw [hEq] at h
    exact absurd h (by decide)
  by_cases hAscii : c.toNat < 128
  · have hLetter : c.isAlpha = false := Bool.eq_false_iff.mpr fun hAlpha => by
      have hRange := toNat_of_isAlpha hAlpha
      simp only [isBlank, Bool.or_eq_true, Bool.and_eq_true, decide_eq_true_eq, beq_iff_eq] at h
      omega
    have hDigit : c.isDigit = false := Bool.eq_false_iff.mpr fun hDigit => by
      simp [isBlank_of_isDigit hDigit] at h
    simp [isNameChar, isLetter, isNumeral, hAscii, hLetter, hDigit, hUnderscore]
  · have hOutside : ∀ code ∈ [0x85, 0xA0, 0x1680, 0x2000, 0x2001, 0x2002, 0x2003, 0x2004, 0x2005,
        0x2006, 0x2007, 0x2008, 0x2009, 0x200A, 0x2028, 0x2029, 0x202F, 0x205F, 0x3000],
        inRanges letterRanges code = false ∧ inRanges numeralRanges code = false := by
      decide +kernel
    simp only [isBlank, Bool.or_eq_true, Bool.and_eq_true, decide_eq_true_eq, beq_iff_eq] at h
    obtain ⟨hLetter, hNumeral⟩ := hOutside c.toNat (by simp; omega)
    simp [isNameChar, isLetter, isNumeral, hAscii, hLetter, hNumeral, hUnderscore]

/-- A letter or an underscore begins a name and nothing else. -/
theorem starts_of_isNameStart {c : Char} (h : isNameStart c = true) :
    c.isDigit = false ∧ isBlank c = false ∧ c ≠ '"' ∧ c ≠ '\'' ∧ c ≠ '-' := by
  have hNot (d : Char) (hd : isNameStart d = false) : c ≠ d := fun hEq => by simp [hEq, hd] at h
  refine ⟨?_, Bool.eq_false_iff.mpr fun hBlank => ?_, hNot '"' (by decide), hNot '\'' (by decide),
    hNot '-' (by decide)⟩
  · by_contra hDigit
    rw [Bool.not_eq_false] at hDigit
    have hRange := toNat_of_isDigit hDigit
    have hAscii : c.toNat < 128 := by omega
    have hLetter : c.isAlpha = false := Bool.eq_false_iff.mpr fun hAlpha => by
      have hRange := toNat_of_isAlpha hAlpha
      omega
    have hUnderscore : c ≠ '_' := fun hEq => by simp [hEq] at hDigit
    simp [isNameStart, isLetter, hAscii, hLetter, hUnderscore] at h
  · have hOutside := isNameChar_of_isBlank hBlank
    rw [isNameChar_of_isNameStart h] at hOutside
    cases hOutside

/-- No white space continues a number. -/
theorem continues_of_isBlank {c : Char} (h : isBlank c = true) : Numeral.continues c = false := by
  have hNot (d : Char) (hd : isBlank d = false) : c ≠ d := fun hEq => by simp [hEq, hd] at h
  have hDigit : c.isDigit = false := Bool.eq_false_iff.mpr fun hDigit => by
    simp [isBlank_of_isDigit hDigit] at h
  simp [Numeral.continues, hDigit, hNot '.' (by decide), hNot 'e' (by decide), hNot 'E' (by decide)]

section Layouts

/-- A comment is skipped together with the end of its line. -/
theorem takeLayout_comment {body : List Char} (h : '\n' ∉ body) (rest : List Char) :
    takeLayout true (body ++ '\n' :: rest) =
      (body ++ '\n' :: (takeLayout false rest).1, (takeLayout false rest).2) := by
  induction body with
  | nil => simp [takeLayout]
  | cons c body ih =>
      obtain ⟨hLine, hBody⟩ := List.ne_and_not_mem_of_not_mem_cons h
      have hStays : (c != '\n') = true := by simpa using Ne.symm hLine
      simp [takeLayout, hStays, ih hBody]

/-- Layout is skipped, and so is what stands behind it. -/
theorem takeLayout_append {gap : List Char} (h : Layout false gap) (rest : List Char) :
    takeLayout false (gap ++ rest) =
      (gap ++ (takeLayout false rest).1, (takeLayout false rest).2) := by
  generalize hLast : false = last at h
  induction h with
  | nil => rfl
  | @blank last c text hBlank more ih =>
      have hMinus : (c == '-') = false := beq_eq_false_iff_ne.mpr fun hEq => by
        rw [hEq] at hBlank
        exact absurd hBlank (by decide)
      subst hLast
      rw [List.cons_append, takeLayout]
      simp [hBlank, hMinus, ih rfl]
  | @comment last body text hBody more ih =>
      subst hLast
      have hOpen : takeLayout false ('-' :: '-' :: (body ++ '\n' :: text) ++ rest) =
          ('-' :: '-' :: (takeLayout true (body ++ '\n' :: (text ++ rest))).1,
            (takeLayout true (body ++ '\n' :: (text ++ rest))).2) := by
        simp [takeLayout]
      rw [hOpen, takeLayout_comment hBody, ih rfl]
      simp
  | lastComment => cases hLast

/-- Layout in front of a text only moves its place. -/
theorem Scans.layout {gap rest : List Char} {tokens : List Token} (h : Scans rest tokens)
    (hGap : Layout false gap) : Scans (gap ++ rest) tokens := by
  intro budget position hBudget
  obtain ⟨budget, rfl⟩ := Nat.exists_eq_succ_of_ne_zero (Nat.ne_of_gt (Nat.zero_lt_of_lt hBudget))
  have hMoved : scanWithin (budget + 1) position (gap ++ rest) =
      scanWithin (budget + 1) (position.after gap) rest := by
    simp only [scanWithin, takeLayout_append hGap, Position.after_append]
  rw [hMoved]
  refine h (budget + 1) (position.after gap) (Nat.lt_of_le_of_lt ?_ hBudget)
  simp

end Layouts

/-! What a reader has taken it takes again where it ends for another reason. -/
section Again

variable {rest : List Char}

/-- A fraction is taken again in front of whatever does not continue it. -/
theorem takeFraction_again (text : List Char) (h : StopsAt (fun c => c.isDigit || c == '.') rest) :
    takeFraction ((takeFraction text).1 ++ rest) = ((takeFraction text).1, rest) := by
  have hNone : takeFraction rest = ([], rest) := by
    cases rest with
    | nil => rfl
    | cons c more =>
        have hStop := h c rfl
        simp only [Bool.or_eq_false_iff, beq_eq_false_iff_ne] at hStop
        unfold takeFraction
        split
        · rename_i tail hText
          exact absurd (List.cons.inj hText).1 hStop.2
        · rfl
  fun_cases takeFraction text with
  | case1 | case3 => exact hNone
  | case2 text digits hSome =>
      have hDigit : StopsAt Char.isDigit rest := h.mono fun c hc => by simp [hc]
      have hDigits : ∀ c ∈ digits, c.isDigit = true := fun c hc => List.mem_takeWhile_imp hc
      simp [takeFraction, takeWhile_append_of_stopsAt hDigits hDigit,
        dropWhile_append_of_stopsAt hDigits hDigit, hSome]

/-- An exponent is taken again in front of whatever does not continue a
number. -/
theorem takeExponent_again (text : List Char) (h : StopsAt Numeral.continues rest) :
    takeExponent ((takeExponent text).1 ++ rest) = ((takeExponent text).1, rest) := by
  have hNone : takeExponent rest = ([], rest) := by
    cases rest with
    | nil => rfl
    | cons c more =>
        have hStop := h c rfl
        simp only [Numeral.continues, Bool.or_eq_false_iff, beq_eq_false_iff_ne] at hStop
        simp [takeExponent, hStop]
  fun_cases takeExponent text with
  | case1 | case3 => exact hNone
  | case2 mark text sign afterSign digits hMark =>
      have hDigit : StopsAt Char.isDigit rest := h.mono fun c hc => by simp [Numeral.continues, hc]
      have hDigits : ∀ c ∈ digits, c.isDigit = true := fun c hc => List.mem_takeWhile_imp hc
      have hTake := takeWhile_append_of_stopsAt hDigits hDigit
      have hDrop := dropWhile_append_of_stopsAt hDigits hDigit
      have hSign : sign = ['+'] ∨ sign = ['-'] ∨ sign = [] := by
        cases text with
        | nil => exact .inr (.inr rfl)
        | cons c more =>
            by_cases hFound : c = '+' ∨ c = '-'
            · rcases hFound with rfl | rfl
              · exact .inl rfl
              · exact .inr (.inl rfl)
            · exact .inr (.inr (if_neg hFound))
      generalize sign = written at hSign ⊢
      generalize digits = run at hMark hDigits hTake hDrop ⊢
      obtain ⟨hLetter, hSome⟩ := hMark
      rcases hSign with rfl | rfl | rfl
      · simp [takeExponent, hTake, hDrop, hLetter, hSome]
      · simp [takeExponent, hTake, hDrop, hLetter, hSome]
      · obtain ⟨first, more, rfl⟩ := List.exists_cons_of_ne_nil hSome
        have hFirst : first.isDigit = true := hDigits first List.mem_cons_self
        have hPlus : first ≠ '+' := fun hEq => by simp [hEq] at hFirst
        have hMinus : first ≠ '-' := fun hEq => by simp [hEq] at hFirst
        rw [List.cons_append] at hTake hDrop
        simp [takeExponent, hPlus, hMinus, hTake, hDrop, hLetter]

/-- The digits of a fraction do not belong to the whole part. -/
theorem stopsAt_takeFraction (text : List Char) (h : StopsAt Char.isDigit rest) :
    StopsAt Char.isDigit ((takeFraction text).1 ++ rest) := by
  fun_cases takeFraction text with
  | case1 | case3 => exact h
  | case2 text digits hSome => exact stopsAt_cons (by decide) _

/-- Neither the whole part nor the fraction goes on with an exponent. -/
theorem stopsAt_takeExponent (text : List Char)
    (h : StopsAt (fun c => c.isDigit || c == '.') rest) :
    StopsAt (fun c => c.isDigit || c == '.') ((takeExponent text).1 ++ rest) := by
  fun_cases takeExponent text with
  | case1 | case3 => exact h
  | case2 mark text sign afterSign digits hMark =>
      obtain ⟨rfl | rfl, _⟩ := hMark
      · exact stopsAt_cons (by decide) _
      · exact stopsAt_cons (by decide) _

theorem readNumber_again (text : List Char) (h : StopsAt Numeral.continues rest) :
    readNumber ((readNumber text).taken ++ rest) = { readNumber text with rest } := by
  have hPoint : StopsAt (fun c => c.isDigit || c == '.') rest := h.mono fun c hc => by
    simp only [Bool.or_eq_true] at hc
    rcases hc with hc | hc <;> simp [Numeral.continues, hc]
  have hWhole : ∀ c ∈ text.takeWhile Char.isDigit, c.isDigit = true := fun c hc =>
    List.mem_takeWhile_imp hc
  obtain ⟨fraction, middle, hFirst⟩ :
      ∃ fraction middle, takeFraction (text.dropWhile Char.isDigit) = (fraction, middle) :=
        ⟨_, _, rfl⟩
  obtain ⟨exponent, left, hSecond⟩ : ∃ exponent left, takeExponent middle = (exponent, left) :=
    ⟨_, _, rfl⟩
  have hExponent := takeExponent_again middle h
  have hBehind := stopsAt_takeExponent middle hPoint
  rw [hSecond] at hExponent hBehind
  have hFraction := takeFraction_again (text.dropWhile Char.isDigit) hBehind
  have hDigit := stopsAt_takeFraction (text.dropWhile Char.isDigit)
    (hBehind.mono fun c hc => by simp [hc])
  rw [hFirst] at hFraction hDigit
  simp only [readNumber, hFirst, hSecond, List.append_assoc,
    takeWhile_append_of_stopsAt hWhole hDigit, dropWhile_append_of_stopsAt hWhole hDigit,
    hFraction, hExponent]

/-- A name that begins with the first character of a text begins with one in any
case. -/
theorem any_isNameChar_of_takeName {text name : List Char}
    (hNext : text.head?.any isNameChar = true)
    (hCase : name.map Char.toLower = (takeName text).1.map Char.toLower) (rest : List Char) :
    (name ++ rest).head?.any isNameChar = true := by
  obtain ⟨c, hHead, hName⟩ := Option.any_eq_true _ _ |>.mp hNext
  obtain ⟨more, rfl⟩ := List.head?_eq_some_iff.mp hHead
  have hTakes : (takeName (c :: more)).1 = c :: (takeName more).1 := by
    simp [takeName, hName]
  rw [hTakes] at hCase
  obtain ⟨first, last, rfl⟩ := List.exists_cons_of_ne_nil (l := name) (by
    rintro rfl
    simp at hCase)
  have hFirst : isNameChar first = true := by
    rw [← isNameChar_toLower, (List.cons.inj hCase).1, isNameChar_toLower, hName]
  simp [hFirst]

/-- A name is taken again with its letters in any case. -/
theorem takeName_again {text name : List Char}
    (hCase : name.map Char.toLower = (takeName text).1.map Char.toLower)
    (hRest : StopsAt (fun c => isNameChar c || c == '.') rest) :
    takeName (name ++ rest) = (name, rest) := by
  have hNone : takeName rest = ([], rest) := @takeName_append [] rest nofun hRest
  induction text generalizing name with
  | nil =>
      obtain rfl : name = [] := by simpa [takeName] using hCase
      exact hNone
  | cons c more ih =>
      rw [takeName] at hCase
      split at hCase
      · rename_i hTaken
        obtain ⟨d, tail, rfl⟩ :=
          List.exists_cons_of_ne_nil (l := name) (by rintro rfl; simp at hCase)
        obtain ⟨hSame, hTail⟩ := List.cons.inj hCase
        have hGoesOn :
            (isNameChar d || (d == '.' && (tail ++ rest).head?.any isNameChar)) = true := by
          rw [← isNameChar_toLower d, hSame, isNameChar_toLower]
          obtain hName | hPoint := Bool.or_eq_true_iff.mp hTaken
          · simp [hName]
          · obtain ⟨hDot, hNext⟩ := Bool.and_eq_true_iff.mp hPoint
            obtain rfl : c = '.' := by simpa using hDot
            obtain rfl : d = '.' := eq_of_toLower_eq hSame.symm (by decide)
            rw [any_isNameChar_of_takeName hNext hTail rest]
            rfl
        rw [List.cons_append, takeName]
        simp only [hGoesOn, if_true, ih hTail]
      · obtain rfl : name = [] := by simpa using hCase
        exact hNone

/-- A quoted text is read again from the text that it covers, whatever follows
the quote. -/
theorem unquote_again {quote : Char} (hPlain : quote ≠ '\\') {text body left : List Char}
    (h : unquote quote text = some (body, left)) (rest : List Char) :
    ∃ front, text = front ++ left ∧ unquote quote (front ++ rest) = some (body, rest) := by
  fun_induction unquote quote text generalizing body left with
  | case1 => cases h
  | case2 c text ih =>
      obtain ⟨⟨read, tail⟩, hRead, hSame⟩ := Option.map_eq_some_iff.mp h
      obtain ⟨rfl, rfl⟩ := Prod.mk.inj hSame
      obtain ⟨front, rfl, hAgain⟩ := ih hRead
      exact ⟨'\\' :: c :: front, rfl, by simp [unquote, hAgain]⟩
  | case3 text hEscape =>
      obtain ⟨rfl, rfl⟩ := Prod.mk.inj (Option.some.inj h)
      refine ⟨[quote], rfl, ?_⟩
      rw [List.singleton_append, unquote.eq_3 _ _ _ fun _ _ hEq _ => hPlain hEq, if_pos rfl]
  | case4 c text hEscape hQuote ih =>
      obtain ⟨⟨read, tail⟩, hRead, hSame⟩ := Option.map_eq_some_iff.mp h
      obtain ⟨rfl, rfl⟩ := Prod.mk.inj hSame
      obtain ⟨front, rfl, hAgain⟩ := ih hRead
      have hOther : c ≠ '\\' := by
        rintro rfl
        cases hFront : front ++ tail with
        | nil =>
            rw [hFront] at hRead
            cases hRead
        | cons next more => exact hEscape next more rfl hFront
      refine ⟨c :: front, rfl, ?_⟩
      rw [List.cons_append, unquote.eq_3 _ _ _ fun _ _ hEq _ => hOther hEq, if_neg hQuote, hAgain]
      rfl

theorem readString_again {quote : Char} (hPlain : quote ≠ '\\') {text : List Char}
    {reading : Reading} (h : readString quote text = some reading) (rest : List Char) :
    ∃ more, reading.taken = quote :: more ∧
      readString quote (more ++ rest) = some { reading with rest } := by
  obtain ⟨⟨body, left⟩, hRead, rfl⟩ := Option.map_eq_some_iff.mp h
  obtain ⟨front, rfl, hAgain⟩ := unquote_again hPlain hRead rest
  exact ⟨front, by simp, by simp [readString, hAgain]⟩

/-- A mark covers its own spelling and nothing else. -/
theorem exists_mark_of_readMark {text : List Char} {reading : Reading}
    (h : readMark text = some reading) :
    ∃ m : Mark, reading.token = .mark m ∧ reading.taken = m.spelling.toList := by
  revert h
  fun_cases readMark text <;> rintro ⟨⟩ <;> exact ⟨_, rfl, rfl⟩

end Again

/-- The ways to write a token: a keyword may be written in any case, any other
token in one way. -/
def Token.WrittenAlike (token : Token) (first second : List Char) : Prop :=
  match token with
  | .keyword _ => first.map Char.toLower = second.map Char.toLower
  | _ => first = second

theorem readName_eq (first : Char) (text : List Char) :
    readName first text =
      ⟨wordToken (String.ofList (first :: (takeName text).1)), first :: (takeName text).1,
        (takeName text).2⟩ := by
  simp only [readName, wordToken]
  cases Keyword.ofWord? (String.ofList (first :: (takeName text).1)) <;> rfl

/-- A name in front of white space is read again, if it is a keyword in any
case. -/
theorem readName_again {first : Char} {text taken rest : List Char}
    (hFirst : isNameStart first = true)
    (hTaken : (readName first text).token.WrittenAlike taken (readName first text).taken)
    (hRest : StopsAt (fun c => isNameChar c || c == '.') rest) :
    ∃ next more, taken = next :: more ∧ isNameStart next = true ∧
      readName next (more ++ rest) = ⟨(readName first text).token, taken, rest⟩ := by
  rw [readName_eq] at hTaken ⊢
  generalize hName : first :: (takeName text).1 = name at hTaken ⊢
  obtain ⟨hLower, hToken⟩ : taken.map Char.toLower = name.map Char.toLower ∧
      wordToken (String.ofList taken) = wordToken (String.ofList name) := by
    cases hWord : Keyword.ofWord? (String.ofList name) with
    | none =>
        simp only [wordToken, hWord, Option.map_none, Option.getD_none,
          Token.WrittenAlike] at hTaken
        exact hTaken ▸ ⟨rfl, rfl⟩
    | some keyword =>
        simp only [wordToken, hWord, Option.map_some, Option.getD_some,
          Token.WrittenAlike] at hTaken
        have hSame : Keyword.ofWord? (String.ofList taken) = some keyword := by
          rw [← hWord, Keyword.ofWord?, Keyword.ofWord?, foldWord_eq hTaken]
        refine ⟨hTaken, ?_⟩
        simp only [wordToken, hSame, hWord, Option.map_some, Option.getD_some]
  subst hName
  obtain ⟨next, more, rfl⟩ :=
    List.exists_cons_of_ne_nil (l := taken) (by rintro rfl; simp at hLower)
  obtain ⟨hNext, hMore⟩ := List.cons.inj hLower
  refine ⟨next, more, rfl, ?_, ?_⟩
  · rw [← isNameStart_toLower, hNext, isNameStart_toLower, hFirst]
  · rw [readName_eq, takeName_again hMore hRest, hToken]

/-- White space ends every mark. -/
theorem Mark.endsBefore_of_isBlank (m : Mark) {c : Char} (h : isBlank c = true) :
    m.endsBefore c = true := by
  have hNot (d : Char) (hd : isBlank d = false) : (c != d) = true := by
    rw [bne_iff_ne]
    rintro rfl
    simp [hd] at h
  cases m <;> first | rfl | exact hNot _ (by decide)

/-- What was read as a token is read as this token again in front of white
space, also if it is written in another way. -/
theorem Scans.again {first : Char} {text taken rest : List Char} {reading : Reading}
    {tokens : List Token} (h : Scans rest tokens) (hRest : StopsAt (fun c => !isBlank c) rest)
    (hReading : readToken first text = .ok reading)
    (hTaken : reading.token.WrittenAlike taken reading.taken) :
    Scans (taken ++ rest) (reading.token :: tokens) := by
  have hStops {class? : Char → Bool} (hClass : ∀ c, isBlank c = true → class? c = false) :
      StopsAt class? rest := fun c hc => hClass c (by simpa using hRest c hc)
  rw [readToken] at hReading
  split at hReading
  · rename_i hDigit
    obtain rfl := Except.ok.inj hReading
    obtain rfl : taken = _ := hTaken
    obtain ⟨hCovers, hSome⟩ := covers_readNumber hDigit text
    obtain ⟨next, more, hMore⟩ := List.exists_cons_of_ne_nil hSome
    have hAgain := readNumber_again (first :: text) (hStops fun c => continues_of_isBlank)
    rw [hMore, List.cons_append] at hCovers hAgain ⊢
    obtain rfl := (List.cons.inj hCovers).1
    refine h.token (isBlank_of_isDigit hDigit) (fun hEq => ?_) ⟨next :: more, ?_⟩ (by simp)
    · rw [hEq] at hDigit
      cases hDigit
    · rw [readToken, if_pos hDigit, hAgain, ← hMore]
  rename_i hDigit
  split at hReading
  · rename_i hQuote
    cases hString : readString first text with
    | none => simp [hString] at hReading
    | some found =>
        simp only [hString] at hReading
        obtain rfl := Except.ok.inj hReading
        obtain ⟨hPlain, hBlank, hDash⟩ : first ≠ '\\' ∧ isBlank first = false ∧ first ≠ '-' := by
          rcases hQuote with rfl | rfl <;> decide
        obtain ⟨more, hMore, hAgain⟩ := readString_again hPlain hString rest
        obtain rfl : taken = found.taken := by
          obtain ⟨_, _, rfl⟩ := Option.map_eq_some_iff.mp hString
          exact hTaken
        rw [hMore, List.cons_append]
        refine h.token hBlank (fun hEq => absurd hEq hDash) ⟨found.taken, ?_⟩ (by simp)
        simp only [readToken, if_neg hDigit, if_pos hQuote, hAgain]
  rename_i hQuote
  split at hReading
  · rename_i hName
    obtain rfl := Except.ok.inj hReading
    obtain ⟨next, more, rfl, hNext, hAgain⟩ := readName_again hName hTaken
      (hStops fun c hBlank => by
        have hPoint : c ≠ '.' := fun hEq => by simp [hEq, isBlank] at hBlank
        simp [isNameChar_of_isBlank hBlank, hPoint])
    obtain ⟨hNoDigit, hBlank, hDouble, hSingle, hDash⟩ := starts_of_isNameStart hNext
    refine h.token hBlank (fun hEq => absurd hEq hDash) ⟨next :: more, ?_⟩ (by simp)
    simp [readToken, hNoDigit, hDouble, hSingle, hNext, hAgain]
  split at hReading
  · rename_i found hMark
    obtain rfl := Except.ok.inj hReading
    obtain ⟨m, hToken, hSpelling⟩ := exists_mark_of_readMark hMark
    rw [hToken] at hTaken ⊢
    obtain rfl : taken = m.spelling.toList := hTaken.trans hSpelling
    exact h.mark m fun c hc => m.endsBefore_of_isBlank (by simpa using hRest c hc)
  · split at hReading <;> cases hReading

/-- Layout that begins with white space. -/
inductive Gap : List Char → Prop where
  | intro {c : Char} {text : List Char} (h : isBlank c = true) (more : Layout false text) :
      Gap (c :: text)

/-- A text in which lexemes stand again in their order, each behind a gap and
with one more gap behind the last, and keywords in any case. -/
inductive Relaid : List Lexeme → List Char → Prop where
  | finish {gap : List Char} (h : Gap gap) : Relaid [] gap
  | token {lexeme : Lexeme} {lexemes : List Lexeme} {gap taken rest : List Char} (hGap : Gap gap)
      (hTaken : lexeme.token.WrittenAlike taken lexeme.text.toList)
      (hRest : Relaid lexemes rest) : Relaid (lexeme :: lexemes) (gap ++ (taken ++ rest))

theorem Gap.layout {gap : List Char} (h : Gap gap) : Layout false gap := by
  cases h with
  | intro hBlank hMore => exact .blank hBlank hMore

/-- Behind the layout that a text begins with there is a token or nothing. -/
theorem Relaid.stopsAt {lexemes : List Lexeme} {text : List Char} (h : Relaid lexemes text) :
    StopsAt (fun c => !isBlank c) text := by
  cases h with
  | finish hGap =>
      cases hGap with
      | intro hBlank hMore => exact stopsAt_cons (by simp [hBlank]) _
  | token hGap hTaken hRest =>
      cases hGap with
      | intro hBlank hMore => exact stopsAt_cons (by simp [hBlank]) _

/-- Lexemes that stand again in a text are its tokens. -/
theorem Relaid.scans {lexemes : List Lexeme} {text : List Char} (h : Relaid lexemes text)
    (hRead : ∀ lexeme ∈ lexemes, lexeme.WasRead) : Scans text (lexemes.map Lexeme.token) := by
  induction h with
  | @finish gap hGap =>
      have hScans := scans_nil.layout hGap.layout
      rwa [List.append_nil] at hScans
  | @token lexeme lexemes gap taken rest hGap hTaken hRest ih =>
      obtain ⟨⟨first, more, reading, hReading, hToken, hText⟩, hLater⟩ :=
        List.forall_mem_cons.mp hRead
      rw [hToken, hText, String.toList_ofList] at hTaken
      rw [List.map_cons, hToken]
      exact ((ih hLater).again hRest.stopsAt hReading hTaken).layout hGap.layout

end DocQuery.Grammar
