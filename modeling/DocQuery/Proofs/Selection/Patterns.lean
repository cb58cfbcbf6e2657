import DocQuery.Pattern

/-! Which texts a pattern matches: those that its pieces between the percent
signs make up in their order, with a gap between each two. A gap is any run of
characters other than newlines. Matching keeps a truth value for every place of
the text, so each character of the pattern is a statement about the texts that
begin at these places. -/
namespace DocQuery.Pattern

/-- Truth values for the places of a text, its end included: whether what begins
there has a property. -/
inductive Tells (property : List Char → Prop) : List Char → List Bool → Prop where
  | last {place : Bool} (h : place = true ↔ property []) : Tells property [] [place]
  | cons {c : Char} {text : List Char} {place : Bool} {places : List Bool}
      (h : place = true ↔ property (c :: text)) (rest : Tells property text places) :
      Tells property (c :: text) (place :: places)

/-- A text that has a property once a gap is taken off its front. -/
def BehindGap (property : List Char → Prop) (text : List Char) : Prop :=
  ∃ gap rest, '\n' ∉ gap ∧ text = gap ++ rest ∧ property rest

/-- A text that has a property once a certain character is taken off its
front. -/
def BehindChar (wanted : Char) (property : List Char → Prop) (text : List Char) : Prop :=
  ∃ rest, text = wanted :: rest ∧ property rest

section Places

variable {property : List Char → Prop} {text : List Char} {places : List Bool}

/-- Whether the whole text has the property is said at its first place. -/
theorem Tells.headD_iff (h : Tells property text places) :
    places.headD false = true ↔ property text := by
  cases h with
  | last hPlace => exact hPlace
  | cons hPlace _ => exact hPlace

theorem behindGap_nil : BehindGap property [] ↔ property [] := by
  constructor
  · rintro ⟨gap, rest, _, hText, hRest⟩
    obtain ⟨rfl, rfl⟩ := List.append_eq_nil_iff.mp hText.symm
    exact hRest
  · intro h
    exact ⟨[], [], List.not_mem_nil, rfl, h⟩

/-- A gap is empty, or it begins with a character and goes on behind it. -/
theorem behindGap_cons {c : Char} :
    BehindGap property (c :: text) ↔
      property (c :: text) ∨ c ≠ '\n' ∧ BehindGap property text := by
  constructor
  · rintro ⟨gap, rest, hGap, hText, hRest⟩
    cases gap with
    | nil =>
        obtain rfl : c :: text = rest := hText
        exact Or.inl hRest
    | cons first gap =>
        obtain ⟨rfl, rfl⟩ := List.cons.inj hText
        obtain ⟨hFirst, hLater⟩ := List.ne_and_not_mem_of_not_mem_cons hGap
        exact Or.inr ⟨hFirst.symm, gap, rest, hLater, rfl, hRest⟩
  · rintro (h | ⟨hChar, gap, rest, hGap, rfl, hRest⟩)
    · exact ⟨[], c :: text, List.not_mem_nil, rfl, h⟩
    · exact ⟨c :: gap, rest, List.not_mem_cons_of_ne_of_not_mem hChar.symm hGap, rfl, hRest⟩

/-- Places behind a gap are those from which a later place is reached. -/
theorem Tells.afterGap (h : Tells property text places) :
    Tells (BehindGap property) text (afterGap text places) := by
  induction h with
  | last hPlace => exact .last (hPlace.trans behindGap_nil.symm)
  | @cons c text place places hPlace _ ih =>
      refine .cons ?_ ih
      rw [Bool.or_eq_true, Bool.and_eq_true, hPlace, ih.headD_iff, bne_iff_ne, behindGap_cons]

/-- Places behind a character are those that it stands at. -/
theorem Tells.afterChar (wanted : Char) (h : Tells property text places) :
    Tells (BehindChar wanted property) text (afterChar wanted text places) := by
  induction h with
  | last _ => exact .last (by simp [BehindChar])
  | @cons c text place places _ hRest ih =>
      refine .cons ?_ ih
      rw [List.tail_cons, Bool.and_eq_true, beq_iff_eq, hRest.headD_iff]
      constructor
      · rintro ⟨rfl, hBehind⟩
        exact ⟨text, rfl, hBehind⟩
      · rintro ⟨rest, hText, hBehind⟩
        obtain ⟨rfl, rfl⟩ := List.cons.inj hText
        exact ⟨rfl, hBehind⟩

end Places

/-- The texts that a pattern matches, by the characters of the pattern. -/
def Matches : List Char → List Char → Prop
  | [] => (· = [])
  | c :: pattern =>
      if c = '%' then BehindGap (Matches pattern) else BehindChar c (Matches pattern)

/-- Only the end of a text is an empty text. -/
theorem tells_end (text : List Char) :
    Tells (· = []) text (text.map (fun _ => false) ++ [true]) := by
  induction text with
  | nil => exact .last (by simp)
  | cons c text ih => exact .cons (by simp) ih

/-- The places say from where on the text matches the pattern. The induction is
on the pattern. -/
theorem tells_places (text pattern : List Char) :
    Tells (Matches pattern) text (places text pattern) := by
  induction pattern with
  | nil => exact tells_end text
  | cons c pattern ih =>
      rw [places, Matches]
      split
      · exact ih.afterGap
      · exact ih.afterChar c

/-- Pieces and gaps in turn, from the first piece to the last. -/
def weave : List (List Char) → List (List Char) → List Char
  | [], _ => []
  | piece :: _, [] => piece
  | piece :: pieces, gap :: gaps => piece ++ gap ++ weave pieces gaps

/-- A text of pieces with a gap between each two. -/
def MadeOf (pieces : List (List Char)) (text : List Char) : Prop :=
  ∃ gaps : List (List Char), gaps.length + 1 = pieces.length ∧ (∀ gap ∈ gaps, '\n' ∉ gap) ∧
    text = weave pieces gaps

section Pieces

variable {piece : List Char} {pieces : List (List Char)} {text : List Char}

theorem madeOf_singleton : MadeOf [piece] text ↔ text = piece := by
  constructor
  · rintro ⟨gaps, hLength, _, rfl⟩
    obtain rfl : gaps = [] := List.length_eq_zero_iff.mp (Nat.succ.inj hLength)
    rfl
  · rintro rfl
    exact ⟨[], rfl, by simp, rfl⟩

/-- Behind an empty piece comes a gap, unless it is the last. -/
theorem madeOf_nil_cons (hPieces : pieces ≠ []) :
    MadeOf ([] :: pieces) text ↔ BehindGap (MadeOf pieces) text := by
  constructor
  · rintro ⟨gaps, hLength, hGaps, rfl⟩
    cases gaps with
    | nil => exact absurd (List.length_eq_zero_iff.mp (Nat.succ.inj hLength).symm) hPieces
    | cons gap gaps =>
        obtain ⟨hGap, hOthers⟩ := List.forall_mem_cons.mp hGaps
        exact ⟨gap, weave pieces gaps, hGap, rfl, gaps, Nat.succ.inj hLength, hOthers, rfl⟩
  · rintro ⟨gap, rest, hGap, rfl, gaps, hLength, hGaps, rfl⟩
    exact ⟨gap :: gaps, congrArg Nat.succ hLength, List.forall_mem_cons.mpr ⟨hGap, hGaps⟩, rfl⟩

/-- A piece begins with its first character. -/
theorem weave_cons_cons (c : Char) (gaps : List (List Char)) :
    weave ((c :: piece) :: pieces) gaps = c :: weave (piece :: pieces) gaps := by
  cases gaps with
  | nil => rfl
  | cons gap gaps => rfl

/-- A piece is matched character by character. -/
theorem madeOf_cons_cons (c : Char) :
    MadeOf ((c :: piece) :: pieces) text ↔ BehindChar c (MadeOf (piece :: pieces)) text := by
  constructor
  · rintro ⟨gaps, hLength, hGaps, rfl⟩
    exact ⟨weave (piece :: pieces) gaps, weave_cons_cons c gaps, gaps, hLength, hGaps, rfl⟩
  · rintro ⟨rest, rfl, gaps, hLength, hGaps, rfl⟩
    exact ⟨gaps, hLength, hGaps, (weave_cons_cons c gaps).symm⟩

end Pieces

/-- A percent sign ends a piece, and every other character belongs to one. -/
theorem matches_iff_madeOf (pattern text : List Char) :
    Matches pattern text ↔ MadeOf (pattern.splitOn '%') text := by
  induction pattern generalizing text with
  | nil => exact madeOf_singleton.symm
  | cons c pattern ih =>
      have hSame : Matches pattern = MadeOf (pattern.splitOn '%') :=
        funext fun rest => propext (ih rest)
      have hSome : pattern.splitOn '%' ≠ [] := List.splitOn_ne_nil '%' pattern
      rw [Matches, hSame, List.splitOn_cons_eq_if_modifyHead]
      by_cases hPercent : c = '%'
      · rw [if_pos hPercent, if_pos (beq_iff_eq.mpr hPercent), madeOf_nil_cons hSome]
      · rw [if_neg hPercent, if_neg (mt beq_iff_eq.mp hPercent)]
        obtain ⟨piece, pieces, hPieces⟩ := List.exists_cons_of_ne_nil hSome
        rw [hPieces, List.modifyHead_cons, madeOf_cons_cons]

/-- A pattern matches the texts made of its pieces. -/
theorem accepts_iff (pattern text : String) :
    accepts pattern text = true ↔ MadeOf (pattern.toList.splitOn '%') text.toList := by
  rw [accepts, (tells_places text.toList pattern.toList).headD_iff, matches_iff_madeOf]

end DocQuery.Pattern
