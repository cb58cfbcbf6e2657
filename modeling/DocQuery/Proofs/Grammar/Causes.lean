import DocQuery.Proofs.Grammar.Checking
import DocQuery.Proofs.Grammar.Faults
import DocQuery.Proofs.Grammar.Numbers

/-! At which stage a text fails. The scanner, the readers and the meaning each
have causes of their own to refuse a text. One cause of the meaning has no text:
digits that are no number. Digits are only taken from number tokens, and those
are numerals. -/
namespace DocQuery

namespace Grammar

/-- What begins no token is refused while the text is scanned, for one of the
three causes of this stage. -/
theorem stage_of_readToken {first : Char} {rest : List Char} {refusal : Refusal}
    (h : readToken first rest = .error refusal) : refusal.cause.stage = .scanning := by
  rw [readToken] at h
  split at h
  · cases h
  split at h
  · split at h
    · cases h
    · obtain rfl := Except.error.inj h
      rfl
  split at h
  · cases h
  split at h
  · cases h
  split at h
  · obtain rfl := Except.error.inj h
    rfl
  · obtain rfl := Except.error.inj h
    rfl

/-- The scanner refuses a text for a cause of its own. -/
theorem stage_of_scan {text : String} {error : SyntaxError} (h : scan text = .error error) :
    error.cause.stage = .scanning := by
  obtain ⟨front, first, rest, refusal, _, hRefusal, rfl⟩ := exists_front_of_scanWithin h
  exact stage_of_readToken hRefusal

/-- Tokens that spell no statement are refused for a cause of the readers. -/
theorem stage_of_ofTokens {tokens : Tokens} {error : SyntaxError}
    (h : Statement.ofTokens tokens = .error error) : error.cause.stage = .reading := by
  obtain ⟨complaint, rfl, _, hStage⟩ := exists_complaint_of_ofTokens h
  rw [Complaint.toError]
  split <;> exact hStage

/-- A numeral is never said to be no number, whatever its size. -/
theorem literalOfDigits_numeral_ne (negative : Bool) (n : Numeral) (digits : String) :
    literalOfDigits (String.ofList (n.signed negative)) ≠ .error (.malformedNumber digits) := by
  intro hMalformed
  have hError : (ValueNode.number (String.ofList (n.signed negative)) .start).evaluate =
      .error ⟨.malformedNumber digits, .start, some (String.ofList (n.signed negative))⟩ := by
    rw [ValueNode.evaluate, hMalformed]
  have hReadAs := readAs_evaluate negative n .start
  rw [hError] at hReadAs
  by_cases hReal : n.IsReal
  · obtain ⟨x, _, hOk⟩ | ⟨error, hSame, hCause⟩ := hReadAs.float hReal
    · cases hOk
    · obtain rfl := Except.error.inj hSame
      cases hCause
  · by_cases hRange : -2 ^ 63 ≤ n.integer negative ∧ n.integer negative ≤ 2 ^ 63 - 1
    · cases (hReadAs.integer hReal _).mpr ⟨rfl, hRange⟩
    · obtain ⟨error, hSame, hCause⟩ := hReadAs.beyond hReal hRange
      obtain rfl := Except.error.inj hSame
      cases hCause

end Grammar

open Grammar in
/-- No text is refused for digits that are no number. -/
theorem Query.cause_ne_malformedNumber {text : String} {error : SyntaxError}
    (h : Query.ofText text = .error error) (digits : String) :
    error.cause ≠ .malformedNumber digits := by
  have hStage (hOther : error.cause.stage ≠ .meaning) : error.cause ≠ .malformedNumber digits := by
    intro hCause
    rw [hCause] at hOther
    exact hOther rfl
  rw [Query.ofText, Statement.ofText] at h
  cases hScan : scan text with
  | error fault =>
      rw [hScan] at h
      obtain rfl := Except.error.inj h
      exact hStage (by simp [stage_of_scan hScan])
  | ok tokens =>
      rw [hScan] at h
      change (Statement.ofTokens tokens >>= Statement.toQuery) = _ at h
      cases hRead : Statement.ofTokens tokens with
      | error fault =>
          rw [hRead] at h
          obtain rfl := Except.error.inj h
          exact hStage (by simp [stage_of_ofTokens hRead])
      | ok statement =>
          rw [hRead] at h
          intro hCause
          obtain ⟨trace, hTrace, hExplains⟩ := (checks_toQuery statement).explains h
          obtain ⟨hDigits, hMalformed⟩ := hExplains.digits digits hCause
          obtain ⟨negative, n, rfl⟩ := (leave_of_ofTokens hRead trace hTrace).exists_numeral hScan
            hDigits
          exact literalOfDigits_numeral_ne negative n _ hMalformed

end DocQuery
