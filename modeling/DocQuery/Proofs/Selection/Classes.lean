import Mathlib.Data.List.FinRange
import Mathlib.Data.List.Sort
import Mathlib.SetTheory.Cardinal.Finite

/-! The classes of an equivalence between the items of a list. They share the
items out among them, each with its items in the order of the list, and they
stand in the order of their first items. There are as many as there are elements
of the quotient. -/
namespace DocQuery

variable {α β : Type} {alike : α → α → Bool} {items : List α}

/-- The items that are like no item before them. -/
def firstsOf (alike : α → α → Bool) (items : List α) : List α :=
  items.eraseDupsBy fun item earlier => alike earlier item

@[simp] theorem firstsOf_nil : firstsOf alike [] = [] :=
  rfl

theorem firstsOf_cons (first : α) (rest : List α) :
    firstsOf alike (first :: rest) =
      first :: firstsOf alike (rest.filter fun item => !alike first item) := by
  simp [firstsOf, List.eraseDupsBy_cons]

/-- Lists by kinds: what is left of a list once all items like the first are
taken away. -/
@[elab_as_elim]
theorem kinds_induction (alike : α → α → Bool) {motive : List α → Prop} (nil : motive [])
    (cons : ∀ first rest, motive (rest.filter fun item => !alike first item) →
      motive (first :: rest)) (items : List α) : motive items := by
  induction hLength : items.length using Nat.strong_induction_on generalizing items with
  | _ length ih =>
    cases items with
    | nil => exact nil
    | cons first rest =>
        have hShorter := List.length_filter_le (fun item => !alike first item) rest
        exact cons first rest (ih _ (by rw [← hLength]; exact Nat.lt_succ_of_le hShorter) _ rfl)

theorem firstsOf_sublist_items : (firstsOf alike items).Sublist items := by
  induction items using kinds_induction alike with
  | nil => exact List.Sublist.refl []
  | cons first rest ih =>
      rw [firstsOf_cons]
      exact (ih.trans List.filter_sublist).cons_cons first

theorem firstsOf_subset : firstsOf alike items ⊆ items :=
  firstsOf_sublist_items.subset

/-- An item at the end is among the firsts if no first is like it. -/
theorem firstsOf_append_singleton (items : List α) (item : α) :
    firstsOf alike (items ++ [item]) = firstsOf alike items ++
      if (firstsOf alike items).any fun first => alike first item then [] else [item] := by
  induction items using kinds_induction alike with
  | nil => rfl
  | cons first rest ih =>
      rw [List.cons_append, firstsOf_cons, firstsOf_cons, List.filter_append, List.any_cons,
        List.cons_append]
      cases hAlike : alike first item with
      | true => simp [hAlike]
      | false =>
          rw [Bool.false_or, ← ih]
          simp [hAlike]

theorem firstsOf_map (f : β → α) (items : List β) :
    firstsOf alike (items.map f) = (firstsOf (fun a b => alike (f a) (f b)) items).map f := by
  induction items using kinds_induction fun a b => alike (f a) (f b) with
  | nil => rfl
  | cons first rest ih => simp [firstsOf_cons, List.filter_map, Function.comp_def, ih]

/-- A test that is an equivalence between the items of a list. -/
structure EquivalenceOn (alike : α → α → Bool) (items : List α) : Prop where
  refl : ∀ a ∈ items, alike a a = true
  symm : ∀ a ∈ items, ∀ b ∈ items, alike a b = true → alike b a = true
  trans : ∀ a ∈ items, ∀ b ∈ items, ∀ c ∈ items,
    alike a b = true → alike b c = true → alike a c = true

namespace EquivalenceOn

/-- An equivalence on items is one on any part of them. -/
theorem mono (h : EquivalenceOn alike items) {part : List α} (hPart : part ⊆ items) :
    EquivalenceOn alike part where
  refl a ha := h.refl a (hPart ha)
  symm a ha b hb := h.symm a (hPart ha) b (hPart hb)
  trans a ha b hb c hc := h.trans a (hPart ha) b (hPart hb) c (hPart hc)

theorem tail {first : α} {rest : List α} (h : EquivalenceOn alike (first :: rest)) :
    EquivalenceOn alike (rest.filter fun item => !alike first item) :=
  h.mono (List.Subset.trans List.filter_sublist.subset (List.subset_cons_self first rest))

/-- A class other than that of the first item is left whole when that one is
taken away. -/
theorem filter_apart {first : α} {rest : List α} (h : EquivalenceOn alike (first :: rest))
    {item : α} (hItem : item ∈ rest.filter fun item => !alike first item) :
    (first :: rest).filter (alike item) =
      (rest.filter fun item => !alike first item).filter (alike item) := by
  obtain ⟨hRest, hApart⟩ := List.mem_filter.mp hItem
  have hMember : item ∈ first :: rest := List.mem_cons_of_mem first hRest
  have hFirst : alike item first ≠ true := by
    intro hAlike
    simp [h.symm item hMember first List.mem_cons_self hAlike] at hApart
  rw [List.filter_cons_of_neg hFirst, List.filter_filter]
  refine List.filter_congr fun other hOther => ?_
  cases hAlike : alike item other with
  | false => rfl
  | true =>
      have hThere : other ∈ first :: rest := List.mem_cons_of_mem first hOther
      have hNot : alike first other ≠ true := fun hBoth =>
        hFirst (h.trans item hMember other hThere first List.mem_cons_self hAlike
          (h.symm first List.mem_cons_self other hThere hBoth))
      simp [hNot]

/-- Of its class a first item is the first. -/
theorem head?_filter (h : EquivalenceOn alike items) {first : α}
    (hFirst : first ∈ firstsOf alike items) : (items.filter (alike first)).head? = some first := by
  induction items using kinds_induction alike with
  | nil => cases hFirst
  | cons item rest ih =>
      rw [firstsOf_cons] at hFirst
      rcases List.mem_cons.mp hFirst with rfl | hLater
      · rw [List.filter_cons_of_pos (h.refl first List.mem_cons_self), List.head?_cons]
      · rw [h.filter_apart (firstsOf_subset hLater)]
        exact ih h.tail hLater

/-- Every item is like one of the firsts. -/
theorem exists_first (h : EquivalenceOn alike items) {item : α} (hItem : item ∈ items) :
    ∃ first ∈ firstsOf alike items, alike first item = true := by
  induction items using kinds_induction alike with
  | nil => cases hItem
  | cons first rest ih =>
      rw [firstsOf_cons]
      by_cases hAlike : alike first item = true
      · exact ⟨first, List.mem_cons_self, hAlike⟩
      · have hRest : item ∈ rest := by
          rcases List.mem_cons.mp hItem with rfl | hRest
          · exact absurd (h.refl item hItem) hAlike
          · exact hRest
        obtain ⟨later, hLater, hSame⟩ := ih h.tail (List.mem_filter.mpr ⟨hRest, by simp [hAlike]⟩)
        exact ⟨later, List.mem_cons_of_mem first hLater, hSame⟩

/-- Two firsts that are alike are one. -/
theorem first_unique (h : EquivalenceOn alike items) {a b : α} (ha : a ∈ firstsOf alike items)
    (hb : b ∈ firstsOf alike items) (hAlike : alike a b = true) : a = b := by
  have hMemberA := firstsOf_subset ha
  have hMemberB := firstsOf_subset hb
  have hClass : items.filter (alike a) = items.filter (alike b) := by
    refine List.filter_congr fun other hOther => ?_
    refine Bool.eq_iff_iff.mpr ⟨fun hOne => ?_, fun hTwo => ?_⟩
    · exact h.trans b hMemberB a hMemberA other hOther (h.symm a hMemberA b hMemberB hAlike) hOne
    · exact h.trans a hMemberA b hMemberB other hOther hAlike hTwo
  exact Option.some.inj ((h.head?_filter ha).symm.trans (hClass ▸ h.head?_filter hb))

/-- An item at the end is among the firsts if nothing before is like it. -/
theorem firstsOf_concat {item : α} (h : EquivalenceOn alike (items ++ [item])) :
    firstsOf alike (items ++ [item]) = firstsOf alike items ++
      if items.any fun earlier => alike earlier item then [] else [item] := by
  have hAny : ((firstsOf alike items).any fun first => alike first item) =
      items.any fun earlier => alike earlier item := by
    rw [Bool.eq_iff_iff, List.any_eq_true, List.any_eq_true]
    constructor
    · rintro ⟨first, hFirst, hAlike⟩
      exact ⟨first, firstsOf_subset hFirst, hAlike⟩
    · rintro ⟨earlier, hEarlier, hAlike⟩
      have hItems := h.mono (List.subset_append_left items [item])
      obtain ⟨first, hFirst, hSame⟩ := hItems.exists_first hEarlier
      refine ⟨first, hFirst, h.trans first ?_ earlier ?_ item ?_ hSame hAlike⟩
      · exact List.mem_append_left _ (firstsOf_subset hFirst)
      · exact List.mem_append_left _ hEarlier
      · exact List.mem_append_right _ List.mem_cons_self
  rw [firstsOf_append_singleton, hAny]

section Coarser

variable {fine : α → α → Bool} (hCoarse : EquivalenceOn alike items)
  (hFine : EquivalenceOn fine items)
include hCoarse hFine

/-- The firsts of a coarser equivalence are some of those of a finer one. -/
theorem firstsOf_sublist (h : ∀ a ∈ items, ∀ b ∈ items, fine a b = true → alike a b = true) :
    (firstsOf alike items).Sublist (firstsOf fine items) := by
  induction items using List.reverseRecOn with
  | nil => exact List.Sublist.refl []
  | append_singleton earlier item ih =>
      have hPart := List.subset_append_left earlier [item]
      have hEarlier := ih (hCoarse.mono hPart) (hFine.mono hPart)
        fun a ha b hb => h a (hPart ha) b (hPart hb)
      rw [hCoarse.firstsOf_concat, hFine.firstsOf_concat]
      refine hEarlier.append ?_
      by_cases hAny : (earlier.any fun other => fine other item) = true
      · obtain ⟨other, hOther, hSame⟩ := List.any_eq_true.mp hAny
        have hAlike := h other (hPart hOther) item (by simp) hSame
        rw [if_pos (List.any_eq_true.mpr ⟨other, hOther, hAlike⟩)]
        exact List.nil_sublist _
      · rw [if_neg hAny]
        split
        · exact List.nil_sublist _
        · exact List.Sublist.refl _

/-- Two equivalences, one of them coarser, have as many firsts only if they are
the same. -/
theorem length_firstsOf_eq_iff
    (h : ∀ a ∈ items, ∀ b ∈ items, fine a b = true → alike a b = true) :
    (firstsOf alike items).length = (firstsOf fine items).length ↔
      ∀ a ∈ items, ∀ b ∈ items, alike a b = true → fine a b = true := by
  have hSublist := hCoarse.firstsOf_sublist hFine h
  constructor
  · intro hLength a ha b hb hAlike
    have hSameFirsts := hSublist.eq_of_length hLength
    obtain ⟨first, hFirst, hFirstA⟩ := hFine.exists_first ha
    obtain ⟨second, hSecond, hSecondB⟩ := hFine.exists_first hb
    have hMember := firstsOf_subset hFirst
    have hOther := firstsOf_subset hSecond
    have hAcross : alike first b = true :=
      hCoarse.trans first hMember a ha b hb (h first hMember a ha hFirstA) hAlike
    have hBack : alike b second = true :=
      hCoarse.symm second hOther b hb (h second hOther b hb hSecondB)
    obtain rfl : first = second := hCoarse.first_unique (hSameFirsts ▸ hFirst)
      (hSameFirsts ▸ hSecond)
      (hCoarse.trans first hMember b hb second hOther hAcross hBack)
    exact hFine.trans a ha first hMember b hb (hFine.symm first hMember a ha hFirstA) hSecondB
  · intro hAgree
    exact le_antisymm hSublist.length_le (hFine.firstsOf_sublist hCoarse hAgree).length_le

end Coarser

end EquivalenceOn

theorem equivalenceOn_map_iff {f : β → α} {items : List β} :
    EquivalenceOn alike (items.map f) ↔ EquivalenceOn (fun a b => alike (f a) (f b)) items := by
  constructor
  · intro h
    exact ⟨fun a ha => h.refl _ (List.mem_map_of_mem ha),
      fun a ha b hb => h.symm _ (List.mem_map_of_mem ha) _ (List.mem_map_of_mem hb),
      fun a ha b hb c hc => h.trans _ (List.mem_map_of_mem ha) _ (List.mem_map_of_mem hb) _
        (List.mem_map_of_mem hc)⟩
  · rintro ⟨hRefl, hSymm, hTrans⟩
    refine ⟨?_, ?_, ?_⟩ <;> simpa only [List.forall_mem_map]

/-- With each first item all that are like it. -/
def classesOf (alike : α → α → Bool) (items : List α) : List (List α) :=
  (firstsOf alike items).map fun first => items.filter (alike first)

theorem classesOf_map (f : β → α) (items : List β) :
    classesOf alike (items.map f) =
      (classesOf (fun a b => alike (f a) (f b)) items).map (List.map f) := by
  rw [classesOf, classesOf, firstsOf_map, List.map_map, List.map_map]
  exact List.map_congr_left fun first _ => List.filter_map

/-- The classes of a list are those of its places. -/
theorem classesOf_eq_places (alike : α → α → Bool) (items : List α) :
    classesOf alike items =
      (classesOf (fun i j => alike items[i] items[j]) (List.finRange items.length)).map
        (List.map fun i => items[i]) := by
  rw [← classesOf_map]
  exact congrArg _ (List.map_getElem_finRange items).symm

/-- A class keeps the order of its items. -/
theorem sublist_of_mem_classesOf {group : List α} (h : group ∈ classesOf alike items) :
    group.Sublist items := by
  obtain ⟨first, _, rfl⟩ := List.mem_map.mp h
  exact List.filter_sublist

namespace EquivalenceOn

/-- The first item leads the first class, and the others are classed without
those like it. -/
theorem classesOf_cons {first : α} {rest : List α} (h : EquivalenceOn alike (first :: rest)) :
    classesOf alike (first :: rest) =
      (first :: rest.filter (alike first)) ::
        classesOf alike (rest.filter fun item => !alike first item) := by
  rw [classesOf, firstsOf_cons, List.map_cons,
    List.filter_cons_of_pos (h.refl first List.mem_cons_self)]
  refine congrArg _ (List.map_congr_left fun later hLater => ?_)
  exact h.filter_apart (firstsOf_subset hLater)

/-- Every item is in one class. -/
theorem flatten_classesOf_perm (h : EquivalenceOn alike items) :
    (classesOf alike items).flatten.Perm items := by
  induction items using kinds_induction alike with
  | nil => exact List.Perm.nil
  | cons first rest ih =>
      rw [h.classesOf_cons, List.flatten_cons, List.cons_append]
      exact (((ih h.tail).append_left _).trans (List.filter_append_perm _ rest)).cons first

/-- With an item are in its class exactly the items that are like it. -/
theorem mem_class_iff (h : EquivalenceOn alike items) {group : List α}
    (hGroup : group ∈ classesOf alike items) {a b : α} (ha : a ∈ group) (hb : b ∈ items) :
    b ∈ group ↔ alike a b = true := by
  obtain ⟨first, hFirst, rfl⟩ := List.mem_map.mp hGroup
  have hThere := firstsOf_subset hFirst
  obtain ⟨hA, hFirstA⟩ := List.mem_filter.mp ha
  rw [List.mem_filter, and_iff_right hb]
  constructor
  · exact h.trans a hA first hThere b hb (h.symm first hThere a hA hFirstA)
  · exact h.trans first hThere a hA b hb hFirstA

theorem ne_nil_of_mem_classesOf (h : EquivalenceOn alike items) {group : List α}
    (hGroup : group ∈ classesOf alike items) : group ≠ [] := by
  obtain ⟨first, hFirst, rfl⟩ := List.mem_map.mp hGroup
  exact fun hNil => by simpa [hNil] using h.head?_filter hFirst

/-- The classes begin with the firsts. -/
theorem filterMap_head?_classesOf (h : EquivalenceOn alike items) :
    (classesOf alike items).filterMap List.head? = firstsOf alike items := by
  rw [classesOf, List.filterMap_map]
  refine (List.filterMap_congr fun first hFirst => ?_).trans (List.filterMap_some)
  exact h.head?_filter hFirst

/-- Of items in ascending order those are firsts that are like no smaller
one. -/
theorem firstsOf_eq_filter [LinearOrder α] (h : EquivalenceOn alike items)
    (hOrder : items.Pairwise (· < ·)) :
    firstsOf alike items =
      items.filter fun item => !items.any fun other => decide (other < item) &&
        alike other item := by
  induction items using List.reverseRecOn with
  | nil => rfl
  | append_singleton earlier last ih =>
      obtain ⟨hEarlier, _, hLast⟩ := List.pairwise_append.mp hOrder
      have hSmaller : ∀ item ∈ earlier, item < last := fun item hItem =>
        hLast item hItem last List.mem_cons_self
      rw [h.firstsOf_concat, ih (h.mono (List.subset_append_left earlier [last])) hEarlier,
        List.filter_append]
      congr 1
      · refine List.filter_congr fun item hItem => ?_
        simp [(hSmaller item hItem).le]
      · have hAny : (earlier.any fun other => decide (other < last) && alike other last) =
            earlier.any fun other => alike other last := by
          rw [Bool.eq_iff_iff, List.any_eq_true, List.any_eq_true]
          refine exists_congr fun other => and_congr_right fun hOther => ?_
          rw [decide_eq_true (hSmaller other hOther), Bool.true_and]
        rw [List.filter_singleton, List.any_append, hAny]
        cases earlier.any fun other => alike other last <;> simp

/-- There are as many firsts as there are classes. -/
theorem length_firstsOf (h : EquivalenceOn alike items) (hAll : ∀ item, item ∈ items)
    (hNodup : items.Nodup) {classes : Setoid α} (hSame : ∀ a b, classes a b ↔ alike a b = true) :
    (firstsOf alike items).length = Nat.card (Quotient classes) := by
  classical
  let classOf : {first // first ∈ firstsOf alike items} → Quotient classes := fun first =>
    Quotient.mk classes first.1
  have hInjective : Function.Injective classOf := by
    rintro ⟨a, ha⟩ ⟨b, hb⟩ hEqual
    exact Subtype.ext (h.first_unique ha hb ((hSame a b).mp (Quotient.exact hEqual)))
  have hSurjective : Function.Surjective classOf := by
    intro quotient
    obtain ⟨item, rfl⟩ := Quotient.exists_rep quotient
    obtain ⟨first, hFirst, hAlike⟩ := h.exists_first (hAll item)
    exact ⟨⟨first, hFirst⟩, Quotient.sound ((hSame first item).mpr hAlike)⟩
  have hFirsts : (firstsOf alike items).Nodup := firstsOf_sublist_items.nodup hNodup
  rw [← Nat.card_congr (Equiv.ofBijective classOf ⟨hInjective, hSurjective⟩),
    Nat.subtype_card (firstsOf alike items).toFinset fun item => List.mem_toFinset,
    List.toFinset_card_of_nodup hFirsts]

end EquivalenceOn

end DocQuery
