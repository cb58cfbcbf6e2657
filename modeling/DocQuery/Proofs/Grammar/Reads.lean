import DocQuery.Grammar.Read
import Mathlib.Data.List.Forall2

/-! What readers take from given tokens. `Reads` follows a reader along the
tokens alone, so places and texts of lexemes play no part. -/
namespace DocQuery.Grammar

open Reader

variable {α β γ : Type}

/-- From these tokens a reader takes a part with the wanted property and leaves
those tokens. -/
def Reads (reader : Reader α) (before : List Token) (wanted : α → Prop) (after : List Token) :
    Prop :=
  ∀ lexemes : List Lexeme, lexemes.map Lexeme.token = before →
    ∃ part rest, reader lexemes = .ok (part, rest) ∧ rest.map Lexeme.token = after ∧ wanted part

section Rules

variable {before middle after : List Token} {wanted : α → Prop}

theorem reads_pure {part : α} (h : wanted part) :
    Reads (pure part : Reader α) before wanted before :=
  fun lexemes hLexemes => ⟨part, lexemes, rfl, hLexemes, h⟩

/-- Readers one after the other. -/
theorem Reads.bind {reader : Reader α} {next : α → Reader β} {goal : β → Prop}
    (h : Reads reader before wanted middle)
    (hNext : ∀ part, wanted part → Reads (next part) middle goal after) :
    Reads (reader >>= next) before goal after := by
  intro lexemes hLexemes
  obtain ⟨part, rest, hRead, hRest, hPart⟩ := h lexemes hLexemes
  obtain ⟨result, final, hFinal, hTokens, hResult⟩ := hNext part hPart rest hRest
  refine ⟨result, final, ?_, hTokens, hResult⟩
  change (reader lexemes >>= fun found => next found.1 found.2) = _
  rw [hRead]
  exact hFinal

theorem Reads.mono {reader : Reader α} {goal : α → Prop} (h : Reads reader before wanted after)
    (hGoal : ∀ part, wanted part → goal part) : Reads reader before goal after := by
  intro lexemes hLexemes
  obtain ⟨part, rest, hRead, hRest, hPart⟩ := h lexemes hLexemes
  exact ⟨part, rest, hRead, hRest, hGoal part hPart⟩

/-- A part that is only put into its place is read like the part. -/
theorem Reads.map {reader : Reader α} {f : α → β} {goal : β → Prop}
    (h : Reads reader before wanted after) (hGoal : ∀ part, wanted part → goal (f part)) :
    Reads (f <$> reader) before goal after := by
  rw [← bind_pure_comp]
  exact h.bind fun part hPart => reads_pure (hGoal part hPart)

theorem head_eq (lexemes : List Lexeme) :
    head lexemes = (lexemes.map Lexeme.token).headD .endOfInput := by
  cases lexemes <;> rfl

theorem reads_peek : Reads peek before (· = before.headD .endOfInput) before := by
  intro lexemes hLexemes
  exact ⟨head lexemes, lexemes, rfl, hLexemes, by rw [head_eq, hLexemes]⟩

theorem reads_skip (token : Token) : Reads skip (token :: after) (fun _ => True) after := by
  intro lexemes hLexemes
  refine ⟨(), lexemes.tail, rfl, ?_, trivial⟩
  rw [List.map_tail, hLexemes, List.tail_cons]

theorem reads_place : Reads place before (fun _ => True) before := by
  intro lexemes hLexemes
  cases lexemes with
  | nil => exact ⟨_, _, rfl, hLexemes, trivial⟩
  | cons lexeme rest => exact ⟨_, _, rfl, hLexemes, trivial⟩

/-- All that a reader may learn of the tokens left is how many they are. -/
theorem reads_get :
    Reads get before (fun lexemes => lexemes.length = before.length) before := by
  intro lexemes hLexemes
  exact ⟨lexemes, lexemes, rfl, hLexemes, by rw [← hLexemes, List.length_map]⟩

theorem reads_accept (token : Token) : Reads (accept token) (token :: after) (· = true) after := by
  refine reads_peek.bind fun found hFound => ?_
  rw [if_pos (show found = token from hFound)]
  exact (reads_skip token).bind fun _ _ => reads_pure rfl

/-- A token that is not next is not taken. -/
theorem reads_accept_of_ne {token : Token} (h : before.headD .endOfInput ≠ token) :
    Reads (accept token) before (· = false) before := by
  refine reads_peek.bind fun found hFound => ?_
  rw [if_neg fun hEq => h (hFound.symm.trans hEq)]
  exact reads_pure rfl

theorem reads_expect (token : Token) :
    Reads (expect token) (token :: after) (fun _ => True) after := by
  refine reads_place.bind fun position _ => (reads_accept token).bind fun taken hTaken => ?_
  rw [hTaken]
  exact reads_pure trivial

theorem reads_keyword (k : Keyword) :
    Reads (keyword k) (.keyword k :: after) (fun _ => True) after :=
  reads_expect (.keyword k)

/-- An optional part that is there. -/
theorem reads_optional_some {part : Reader α} (k : Keyword)
    (h : Reads part middle wanted after) :
    Reads (optional k part) (.keyword k :: middle) (fun found => ∃ a, found = some a ∧ wanted a)
      after := by
  refine (reads_accept (.keyword k)).bind fun taken hTaken => ?_
  rw [hTaken]
  exact h.bind fun a ha => reads_pure ⟨a, rfl, ha⟩

/-- An optional part that is not there. -/
theorem reads_optional_none {part : Reader α} {k : Keyword}
    (h : before.headD .endOfInput ≠ .keyword k) :
    Reads (optional k part) before (· = none) before := by
  refine (reads_accept_of_ne h).bind fun taken hTaken => ?_
  rw [hTaken]
  exact reads_pure rfl

/-- The tokens of parts with a separator between them. -/
def separatedTokens (separator : Token) (parts : List (List Token)) : List Token :=
  [separator].intercalate parts

/-- A list of pieces is read to its end, where no separator follows. What is
behind a piece is the end of the list or a separator. -/
theorem reads_separatedWithin {separator : Token} {item : Reader α} {form : List Token → β → Prop}
    {good : β → α → Prop} (hAfter : after.headD .endOfInput ≠ separator) {piece : List Token}
    {pieces : List (List Token)} {first : β} {more : List β}
    (h : List.Forall₂ form (piece :: pieces) (first :: more))
    (hItem : ∀ tokens ∈ piece :: pieces, ∀ b, form tokens b → ∀ rest,
      rest = after ∨ rest.headD .endOfInput = separator → Reads item (tokens ++ rest) (good b) rest)
    {budget : Nat} (hBudget : more.length ≤ budget) :
    Reads (separatedWithin separator item budget)
      (separatedTokens separator (piece :: pieces) ++ after)
      (List.Forall₂ good (first :: more)) after := by
  induction more generalizing piece pieces first budget with
  | nil =>
      obtain ⟨hForm, hNil⟩ := List.forall₂_cons.mp h
      obtain rfl := List.forall₂_nil_right_iff.mp hNil
      have hFirst := hItem piece List.mem_cons_self first hForm after (.inl rfl)
      have hTokens : separatedTokens separator [piece] = piece := by
        simp [separatedTokens]
      rw [hTokens]
      cases budget with
      | zero => exact hFirst.bind fun a ha => reads_pure (.cons ha .nil)
      | succ budget =>
          refine hFirst.bind fun a ha => ?_
          refine (reads_accept_of_ne hAfter).bind fun taken hTaken => ?_
          rw [hTaken]
          exact reads_pure (.cons ha .nil)
  | cons second more ih =>
      obtain ⟨budget, rfl⟩ := Nat.exists_eq_add_of_le' (Nat.le_trans (Nat.le_add_left 1 _) hBudget)
      obtain ⟨hForm, hMore⟩ := List.forall₂_cons.mp h
      cases hMore with
      | @cons next _ pieces _ hSecond hRest =>
          have hTokens : separatedTokens separator (piece :: next :: pieces) ++ after =
              piece ++ (separator :: (separatedTokens separator (next :: pieces) ++ after)) := by
            simp [separatedTokens, List.intercalate_cons_cons]
          rw [hTokens]
          refine (hItem piece List.mem_cons_self first hForm _ (.inr rfl)).bind fun a ha => ?_
          refine (reads_accept separator).bind fun taken hTaken => ?_
          rw [hTaken]
          have hItems := ih (.cons hSecond hRest)
            (fun tokens hTokens => hItem tokens (List.mem_cons_of_mem _ hTokens))
            (Nat.le_of_succ_le_succ hBudget)
          exact hItems.bind fun items hItems => reads_pure (.cons ha hItems)

/-- Between the parts there is one separator fewer than there are parts. -/
theorem length_le_separatedTokens (separator : Token) (first : List Token)
    (more : List (List Token)) :
    more.length ≤ (separatedTokens separator (first :: more)).length := by
  induction more generalizing first with
  | nil => exact Nat.zero_le _
  | cons second more ih =>
      have hMore := ih second
      simp only [separatedTokens, List.intercalate_cons_cons, List.length_append,
        List.length_cons] at hMore ⊢
      omega

theorem exists_separatedTokens_cons (separator : Token) (first : List Token)
    (more : List (List Token)) :
    ∃ rest, separatedTokens separator (first :: more) = first ++ rest := by
  cases more with
  | nil => exact ⟨[], by simp [separatedTokens]⟩
  | cons second more =>
      exact ⟨separator :: separatedTokens separator (second :: more),
        by simp [separatedTokens, List.intercalate_cons_cons]⟩

theorem length_le_of_mem_separatedTokens (separator : Token) {part : List Token}
    {parts : List (List Token)} (h : part ∈ parts) :
    part.length ≤ (separatedTokens separator parts).length := by
  induction parts with
  | nil => cases h
  | cons first more ih =>
      cases more with
      | nil => simp [separatedTokens, List.mem_singleton.mp h]
      | cons second more =>
          simp only [separatedTokens, List.intercalate_cons_cons, List.length_append] at ih ⊢
          obtain rfl | hMore := List.mem_cons.mp h
          · exact Nat.le_trans (Nat.le_add_right _ _) (Nat.le_add_right _ _)
          · exact Nat.le_trans (ih hMore) (Nat.le_add_left _ _)

/-- Parts are read one by one, each in front of the next one or of the end of
the list. The induction is on the parts, and what follows a part is a separator
or the end. -/
theorem reads_separated_of_forall₂ {separator : Token} {item : Reader α}
    {form : List Token → β → Prop} {good : β → α → Prop}
    (hAfter : after.headD .endOfInput ≠ separator) {pieces : List (List Token)} {parts : List β}
    (h : List.Forall₂ form pieces parts) (hParts : parts ≠ [])
    (hItem : ∀ tokens ∈ pieces, ∀ b, form tokens b → ∀ rest,
      rest = after ∨ rest.headD .endOfInput = separator →
        Reads item (tokens ++ rest) (good b) rest) :
    Reads (separated separator item) (separatedTokens separator pieces ++ after)
      (List.Forall₂ good parts) after := by
  obtain ⟨first, more, rfl⟩ := List.exists_cons_of_ne_nil hParts
  have hLength := h.length_eq
  cases h with
  | @cons piece _ pieces _ hForm hMore =>
      refine reads_get.bind fun lexemes hLexemes => ?_
      refine reads_separatedWithin hAfter (.cons hForm hMore) hItem ?_
      have hTokens := length_le_separatedTokens separator piece pieces
      rw [hLexemes, List.length_append]
      rw [List.length_cons, List.length_cons] at hLength
      omega

/-- The next token is one of these. -/
def NextIn (heads : List Token) (tokens : List Token) : Prop :=
  tokens.headD .endOfInput ∈ heads

/-- A token that is not among those that may follow does not follow. -/
theorem NextIn.ne {heads tokens : List Token} (h : NextIn heads tokens) {token : Token}
    (hToken : token ∉ heads) : tokens.headD .endOfInput ≠ token :=
  fun hEq => hToken (hEq ▸ h)

/-- Nodes each of which is turned into an item are turned into the items. -/
theorem map_eq_of_forall₂ {f : α → β} {items : List β} {nodes : List α}
    (h : List.Forall₂ (fun item node => f node = item) items nodes) : nodes.map f = items := by
  induction h with
  | nil => rfl
  | cons hFirst _ ih => rw [List.map_cons, hFirst, ih]

end Rules

end DocQuery.Grammar
