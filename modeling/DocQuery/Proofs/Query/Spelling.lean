import DocQuery.Proofs.Grammar.Derivation

/-! Tokens with a meaning. What the grammar allows to be written and what it
means when it is written are put together here: tokens express something if they
spell a part that means it. Combinations of parts are expressed by combinations
of tokens, whatever the parts are. -/
namespace DocQuery.Grammar

variable {α β : Type} {form : Form α} {means : β → α → Prop}

/-- Tokens that spell a part of a form, where this part means what is to be
expressed. -/
def Expresses (form : Form α) (means : β → α → Prop) (tokens : List Token) (b : β) : Prop :=
  ∃ part, form tokens part ∧ means b part

/-- A part behind a keyword means what it means without the keyword. -/
theorem Expresses.behind {tokens : List Token} {b : β} (h : Expresses form means tokens b)
    (k : Keyword) : Expresses (Behind k form) means (.keyword k :: tokens) b := by
  obtain ⟨part, hForm, hMeans⟩ := h
  exact ⟨part, .intro hForm, hMeans⟩

/-- Tokens that express more express what is asked for. -/
theorem Expresses.mono {tokens : List Token} {b : β} {asked : β → α → Prop}
    (h : Expresses form means tokens b) (hAsked : ∀ part, means b part → asked b part) :
    Expresses form asked tokens b := by
  obtain ⟨part, hForm, hMeans⟩ := h
  exact ⟨part, hForm, hAsked part hMeans⟩

/-- A part that may be missing is expressed by its tokens or by none. -/
theorem expresses_optional (lead : List Token) (tokens : β → List Token) {argument : Option β}
    (h : ∀ b ∈ argument, Expresses form means (lead ++ tokens b) b) :
    Expresses (Optionally form) (Option.Rel means) (optionalTokens lead (argument.map tokens))
      argument := by
  cases argument with
  | none => exact ⟨none, .absent, .none⟩
  | some b =>
      obtain ⟨part, hForm, hMeans⟩ := h b rfl
      exact ⟨some part, .present hForm, .some hMeans⟩

/-- Without a keyword in front a part that may be missing is just its tokens. -/
theorem optionalTokens_nil (argument : Option (List Token)) :
    optionalTokens [] argument = argument.getD [] := by
  cases argument with
  | none => rfl
  | some tokens => rfl

/-- Items that are expressed one by one are expressed by parts in their
order. -/
theorem exists_forall₂_of_expresses {tokens : β → List Token} {items : List β}
    (h : ∀ b ∈ items, Expresses form means (tokens b) b) :
    ∃ parts, List.Forall₂ form (items.map tokens) parts ∧ List.Forall₂ means items parts := by
  induction items with
  | nil => exact ⟨[], .nil, .nil⟩
  | cons b items ih =>
      obtain ⟨part, hForm, hMeans⟩ := h b List.mem_cons_self
      obtain ⟨parts, hForms, hAll⟩ := ih fun c hc => h c (List.mem_cons_of_mem b hc)
      exact ⟨part :: parts, .cons hForm hForms, .cons hMeans hAll⟩

/-- Items that are not none are expressed with separators between them. -/
theorem expresses_separated {separator : Token} {tokens : β → List Token} {items : List β}
    (hItems : items ≠ []) (h : ∀ b ∈ items, Expresses form means (tokens b) b) :
    Expresses (Separated separator form) (List.Forall₂ means)
      (separatedTokens separator (items.map tokens)) items := by
  obtain ⟨parts, hForms, hMeans⟩ := exists_forall₂_of_expresses h
  have hParts : parts ≠ [] := by
    rintro rfl
    exact hItems (List.forall₂_nil_right_iff.mp hMeans)
  exact ⟨parts, .intro hForms hParts, hMeans⟩

/-- A list that is left out when it is empty is expressed by its tokens or by
none. -/
theorem expresses_list (lead : List Token) (separator : Token) (tokens : β → List Token)
    {form : Form (List α)} {items : List β} (h : items ≠ [] →
      Expresses form (List.Forall₂ means)
        (lead ++ separatedTokens separator (items.map tokens)) items) :
    Expresses (Optionally form)
      (fun items found => List.Forall₂ means items (found.getD []) ∧ (items = [] → found = none))
      (listTokens lead separator (items.map tokens)) items := by
  cases items with
  | nil => exact ⟨none, .absent, .nil, fun _ => rfl⟩
  | cons b items =>
      obtain ⟨parts, hForm, hMeans⟩ := h (List.cons_ne_nil b items)
      exact ⟨some parts, .present hForm, hMeans, fun hNil => absurd hNil (List.cons_ne_nil b items)⟩

end DocQuery.Grammar
