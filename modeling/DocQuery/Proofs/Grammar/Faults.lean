import DocQuery.Proofs.Grammar.Checking
import DocQuery.Proofs.Grammar.Coverage

/-! Where the faults of a text are. An error of the scanner is about the
character it stopped at, one of a reader about a token or the end of the text,
and one of the meaning about a place in the statement, which is the place of a
token again. -/
namespace DocQuery

open Grammar Text

/-- An error points into a text: its place is one of the text, with the line
and the column of its offset, and what it quotes is found there. It quotes
nothing only at the end of the text, or where a quote opens a string that
does not end. -/
structure SyntaxError.PointsInto (text : List Char) (error : SyntaxError) : Prop where
  bound : error.position.offset ≤ text.length
  line : error.position.line = 1 + (text.take error.position.offset).count '\n'
  column : error.position.column =
    1 + ((text.take error.position.offset).reverse.takeWhile (· ≠ '\n')).length
  quoted : ∀ fragment ∈ error.fragment, fragment ≠ "" ∧
    (text.drop error.position.offset).take fragment.length = fragment.toList
  silent : error.fragment = none → error.position.offset = text.length ∨
    error.cause.message = "Unterminated string" ∧ ∃ quote more,
      text.drop error.position.offset = quote :: more ∧ (quote = '"' ∨ quote = '\'') ∧
        unquote quote more = none

namespace Grammar

/-- An error behind the front of a text points into it if it quotes what comes
next. -/
theorem pointsInto_of_front {front back : List Char} {error : SyntaxError}
    (hPosition : error.position = Position.start.after front)
    (hQuoted : ∀ fragment ∈ error.fragment, fragment ≠ "" ∧ fragment.toList <+: back)
    (hSilent : error.fragment = none → back = [] ∨
      error.cause = .unterminatedString ∧ ∃ quote more, back = quote :: more ∧
        (quote = '"' ∨ quote = '\'') ∧ unquote quote more = none) :
    error.PointsInto (front ++ back) := by
  rw [Position.after_start] at hPosition
  have hOffset : error.position.offset = front.length := congrArg Position.offset hPosition
  constructor
  · rw [hOffset]
    simp
  · rw [hOffset, List.take_left]
    exact congrArg Position.line hPosition
  · rw [hOffset, List.take_left]
    exact congrArg Position.column hPosition
  · intro fragment hFragment
    obtain ⟨hSome, more, rfl⟩ := hQuoted fragment hFragment
    rw [hOffset, List.drop_left, ← String.length_toList, List.take_left]
    exact ⟨hSome, rfl⟩
  · intro hNone
    rw [hOffset, List.drop_left]
    obtain rfl | ⟨hCause, hQuote⟩ := hSilent hNone
    · exact .inl (by simp)
    · exact .inr ⟨by rw [hCause]; rfl, hQuote⟩

section Scanning

/-- No token begins with a character that is then quoted, or where a string does
not end. -/
theorem refusal_cases {first : Char} {rest : List Char} {refusal : Refusal}
    (h : readToken first rest = .error refusal) :
    refusal.fragment = some (String.singleton first) ∨
      refusal = ⟨.unterminatedString, none⟩ ∧ (first = '"' ∨ first = '\'') ∧
        unquote first rest = none := by
  rw [readToken] at h
  split at h
  · cases h
  split at h
  · rename_i hQuote
    split at h
    · cases h
    · rename_i hNone
      obtain rfl := Except.error.inj h
      exact .inr ⟨rfl, hQuote, Option.map_eq_none_iff.mp hNone⟩
  split at h
  · cases h
  split at h
  · cases h
  split at h
  · rename_i hMark
    obtain rfl := Except.error.inj h
    exact .inl (by rw [hMark]; rfl)
  · obtain rfl := Except.error.inj h
    exact .inl rfl

/-- The scanner stops in front of a character with which no token begins. -/
theorem exists_front_of_scanWithin {budget : Nat} {place : Position} {text : List Char}
    {error : SyntaxError} (h : scanWithin budget place text = .error error) :
    ∃ front first rest refusal, text = front ++ first :: rest ∧
      readToken first rest = .error refusal ∧
      error = ⟨refusal.cause, place.after front, refusal.fragment⟩ := by
  induction budget generalizing place text with
  | zero => cases h
  | succ budget ih =>
      have hSplit := append_takeLayout false text
      simp only [scanWithin] at h
      split at h
      · cases h
      · rename_i first rest hRest
        rw [hRest] at hSplit
        split at h
        · rename_i refusal hRefusal
          exact ⟨_, first, rest, refusal, hSplit.symm, hRefusal, (Except.error.inj h).symm⟩
        · rename_i reading hReading
          cases hMore : scanWithin budget ((place.after (takeLayout false text).1).after
              reading.taken) reading.rest with
          | ok more =>
              rw [hMore] at h
              cases h
          | error fault =>
              rw [hMore] at h
              obtain rfl := Except.error.inj h
              obtain ⟨front, next, tail, refusal, hTail, hRefusal, hFault⟩ := ih hMore
              refine ⟨(takeLayout false text).1 ++ (reading.taken ++ front), next, tail, refusal,
                ?_, hRefusal, ?_⟩
              · rw [List.append_assoc, List.append_assoc, ← hTail, (covers_readToken hReading).1,
                  hSplit]
              · rw [hFault, Position.after_append, Position.after_append]

/-- What scanning refuses stands in the text, or is its end where a quote is
missing. -/
theorem pointsInto_of_scan {text : String} {error : SyntaxError} (h : scan text = .error error) :
    error.PointsInto text.toList := by
  obtain ⟨front, first, rest, refusal, hText, hRefusal, rfl⟩ := exists_front_of_scanWithin h
  rw [hText]
  refine pointsInto_of_front rfl (fun fragment hFragment => ?_) fun hNone => .inr ?_
  · obtain hSome | ⟨rfl, _⟩ := refusal_cases hRefusal
    · rw [Option.mem_def, hSome] at hFragment
      obtain rfl := Option.some.inj hFragment
      exact ⟨by simp [String.singleton_ne_empty], by simp⟩
    · cases hFragment
  · obtain hSome | ⟨rfl, hQuote, hOpen⟩ := refusal_cases hRefusal
    · cases hNone.symm.trans hSome
    · exact ⟨rfl, first, rest, rfl, hQuote, hOpen⟩

end Scanning

/-- A complaint about lexemes of a text, or about its end, points into the
text. -/
theorem pointsInto_of_complaint {text : String} {tokens : Tokens} {complaint : Complaint}
    (h : scan text = .ok tokens) (hRest : complaint.rest ⊆ tokens.lexemes) :
    (complaint.toError tokens.finish).PointsInto text.toList := by
  have hTiles : Tiles .start text.toList tokens.toList := tiles_of_scanWithin (Nat.lt_succ_self _) h
  obtain ⟨front, hFront, hTexts⟩ := hTiles.exists_lexemes
  obtain ⟨hLexemes, hLast⟩ := List.append_inj' hFront rfl
  obtain ⟨cause, rest⟩ := complaint
  cases rest with
  | nil =>
      have hFinish : tokens.finish = Position.start.after text.toList :=
        congrArg Lexeme.position (List.singleton_inj.mp hLast)
      rw [← List.append_nil text.toList]
      exact pointsInto_of_front hFinish nofun fun _ => .inl rfl
  | cons lexeme rest =>
      have hMember : lexeme ∈ tokens.lexemes := hRest List.mem_cons_self
      obtain ⟨before, after, hText, hPosition⟩ :=
        hTiles.exists_front lexeme (List.mem_append_left _ hMember)
      rw [hText]
      refine pointsInto_of_front hPosition (fun fragment hFragment => ?_) nofun
      obtain rfl := Option.some.inj hFragment
      exact ⟨(hTexts lexeme (hLexemes ▸ hMember)).2, List.prefix_append _ _⟩

/-- Faults point into the text. An error of a text that is no statement stands
at a place of the text and quotes what is found there; one of a statement that
means nothing stands where a token begins. -/
theorem Statement.faults_point_into_text (text : String) :
    (∀ error, Statement.ofText text = .error error → error.PointsInto text.toList) ∧
    ∀ statement error, Statement.ofText text = .ok statement → statement.toQuery = .error error →
      ∃ tokens, scan text = .ok tokens ∧
        ∃ lexeme ∈ tokens.lexemes, error.position = lexeme.position := by
  have hText (tokens : Tokens) (h : scan text = .ok tokens) :
      Statement.ofText text = Statement.ofTokens tokens := by
    rw [Statement.ofText, h]
    rfl
  cases hScan : scan text with
  | error fault =>
      have hFault : Statement.ofText text = .error fault := by
        rw [Statement.ofText, hScan]
        rfl
      rw [hFault]
      refine ⟨fun error hError => ?_, fun statement error hStatement => by cases hStatement⟩
      obtain rfl := Except.error.inj hError
      exact pointsInto_of_scan hScan
  | ok tokens =>
      rw [hText tokens hScan]
      refine ⟨fun error hError => ?_, fun statement error hStatement hFault => ⟨tokens, rfl, ?_⟩⟩
      · obtain ⟨complaint, rfl, hRest, _⟩ := exists_complaint_of_ofTokens hError
        exact pointsInto_of_complaint hScan hRest
      · obtain ⟨trace, hTrace, hExplains⟩ := (checks_toQuery statement).explains hFault
        obtain ⟨lexeme, hLexeme, hPlace⟩ := (leave_of_ofTokens hStatement trace hTrace).place
        exact ⟨lexeme, hLexeme, (hPlace.trans hExplains.place).symm⟩

/-- A string that does not end, on the second line of a text, and a bare name
inside an array. -/
theorem Statement.faults_point_into_text_bareName :
    (∃ error : SyntaxError, Statement.ofText "show collections\nwhere 'a" = .error error ∧
      error.position = ⟨23, 2, 7⟩ ∧ error.PointsInto "show collections\nwhere 'a".toList) ∧
    ∃ statement error, Statement.ofText "select * from c where x == [1, y]" = .ok statement ∧
      statement.toQuery = .error error ∧ error.position = ⟨31, 1, 32⟩ ∧
      ∃ tokens, scan "select * from c where x == [1, y]" = .ok tokens ∧
        ∃ lexeme ∈ tokens.lexemes, error.position = lexeme.position := by
  have hOpen : Statement.ofText "show collections\nwhere 'a" =
      .error ⟨.unterminatedString, ⟨23, 2, 7⟩, none⟩ := rfl
  have hName : (match Statement.ofText "select * from c where x == [1, y]" with
      | .error _ => false
      | .ok statement => match statement.toQuery with
        | .error error => decide (error.position = ⟨31, 1, 32⟩)
        | .ok _ => false) = true := by
    decide +kernel
  refine ⟨⟨_, hOpen, rfl, (faults_point_into_text _).1 _ hOpen⟩, ?_⟩
  split at hName
  · cases hName
  · rename_i statement hRead
    split at hName
    · rename_i error hFault
      exact ⟨statement, error, hRead, hFault, of_decide_eq_true hName,
        (faults_point_into_text _).2 _ _ hRead hFault⟩
    · cases hName

end Grammar

end DocQuery
