import DocQuery.Document.Patch
import DocQuery.Proofs.Document.Merge
import DocQuery.Proofs.Value.Fields

/-! What setters come to. Of two setters for one property the later one counts,
but at the place of the earlier one. So a value is kept unless a property in its
way was new after its own: then the value is merged first, even if it was set
last. -/
namespace DocQuery

/-- A name turns up for the first time when another has been there before. -/
def NewAfter (names : List String) (first next : String) : Prop :=
  ∃ before after, names = before ++ next :: after ∧ first ∈ before ∧ next ∉ before

section Names

variable {names : List String} {first next name : String}

theorem newAfter_concat_iff :
    NewAfter (names ++ [name]) first next ↔
      NewAfter names first next ∨ next = name ∧ first ∈ names ∧ name ∉ names := by
  constructor
  · rintro ⟨before, after, hNames, hFirst, hNext⟩
    rcases List.eq_nil_or_concat after with rfl | ⟨after, last, rfl⟩
    · obtain ⟨rfl, hName⟩ := List.append_inj' hNames rfl
      obtain rfl := List.singleton_inj.mp hName
      exact Or.inr ⟨rfl, hFirst, hNext⟩
    · rw [List.concat_eq_append, ← List.cons_append, ← List.append_assoc] at hNames
      exact Or.inl ⟨before, after, (List.append_inj' hNames rfl).1, hFirst, hNext⟩
  · rintro (⟨before, after, rfl, hFirst, hNext⟩ | ⟨rfl, hFirst, hNext⟩)
    · exact ⟨before, after ++ [name], by simp, hFirst, hNext⟩
    · exact ⟨names, [], rfl, hFirst, hNext⟩

/-- Names that are new after one in the middle were so before, or come later. -/
theorem NewAfter.before_or_later {before after : List String}
    (h : NewAfter (before ++ first :: after) first next) :
    NewAfter before first next ∨ next ∈ after := by
  induction after using List.reverseRecOn with
  | nil =>
      rcases newAfter_concat_iff.mp h with hBefore | ⟨rfl, hOld, hNew⟩
      · exact Or.inl hBefore
      · exact absurd hOld hNew
  | append_singleton after last ih =>
      rw [← List.cons_append, ← List.append_assoc] at h
      rcases newAfter_concat_iff.mp h with hEarlier | ⟨rfl, _, _⟩
      · exact (ih hEarlier).imp_right fun hNext => List.mem_append_left _ hNext
      · exact Or.inr (by simp)

theorem NewAfter.append (h : NewAfter names first next) (others : List String) :
    NewAfter (names ++ others) first next := by
  obtain ⟨before, after, rfl, hFirst, hNext⟩ := h
  exact ⟨before, after ++ others, by simp, hFirst, hNext⟩

/-- Two names come in order before a new last one, or the second of them is the
last one. -/
theorem pair_sublist_concat_iff :
    [first, next].Sublist (names ++ [name]) ↔
      [first, next].Sublist names ∨ next = name ∧ first ∈ names := by
  rw [List.sublist_append_iff]
  constructor
  · rintro ⟨front, back, hPair, hFront, hBack⟩
    rcases List.sublist_singleton.mp hBack with rfl | rfl
    · rw [List.append_nil] at hPair
      exact Or.inl (hPair ▸ hFront)
    · have hConcat : [first] ++ [next] = front ++ [name] := hPair
      obtain ⟨rfl, hLast⟩ := List.append_inj' hConcat rfl
      exact Or.inr ⟨List.singleton_inj.mp hLast, List.singleton_sublist.mp hFront⟩
  · rintro (hNames | ⟨rfl, hFirst⟩)
    · exact ⟨_, [], (List.append_nil _).symm, hNames, List.nil_sublist _⟩
    · exact ⟨[first], [next], rfl, List.singleton_sublist.mpr hFirst, List.Sublist.refl _⟩

/-- Where no name is there twice, those behind one are those that stand after
it. -/
theorem pair_sublist_iff {front back : List String} (h : (front ++ first :: back).Nodup) :
    [first, next].Sublist (front ++ first :: back) ↔ next ∈ back := by
  have hFront : first ∉ front := fun hOld =>
    (List.nodup_append.mp h).2.2 first hOld first List.mem_cons_self rfl
  rw [List.sublist_append_iff]
  constructor
  · rintro ⟨early, late, hPair, hEarly, hLate⟩
    cases early with
    | nil =>
        rw [List.nil_append] at hPair
        subst hPair
        exact List.singleton_sublist.mp (List.cons_sublist_cons.mp hLate)
    | cons other early =>
        obtain ⟨rfl, _⟩ := List.cons.inj hPair
        exact absurd (hEarly.subset List.mem_cons_self) hFront
  · intro hNext
    exact ⟨[], _, rfl, List.nil_sublist _,
      List.cons_sublist_cons.mpr (List.singleton_sublist.mpr hNext)⟩

end Names

namespace Fields

/-- Of the entries of one name the last one counts. -/
theorem get?_ofList_last {key : String} {after : List (String × Value)}
    (h : key ∉ after.map Prod.fst) (before : List (String × Value)) (value : Value) :
    (ofList (before ++ (key, value) :: after)).get? key = some value := by
  induction after using List.reverseRecOn with
  | nil => rw [ofList_append, get?_set_self]
  | append_singleton after entry ih =>
      obtain ⟨name, other⟩ := entry
      simp only [List.map_append, List.mem_append, not_or, List.map_singleton,
        List.mem_singleton] at h
      rw [← List.cons_append, ← List.append_assoc, ofList_append, get?_set_of_ne h.2, ih h.1]

theorem mem_of_mem_ofList {entries : List (String × Value)} {field : String × Value}
    (h : field ∈ ofList entries) : field ∈ entries := by
  induction entries using List.reverseRecOn with
  | nil => exact h
  | append_singleton entries entry ih =>
      rw [ofList_append] at h
      rcases mem_of_mem_set h with hOld | rfl
      · exact List.mem_append_left _ (ih hOld)
      · exact List.mem_append_right _ List.mem_cons_self

/-- The place of a name is that of its first entry. -/
theorem pair_sublist_keys_ofList_iff {entries : List (String × Value)} {first next : String} :
    [first, next].Sublist (ofList entries).keys ↔ NewAfter (entries.map Prod.fst) first next := by
  induction entries using List.reverseRecOn with
  | nil => simp [ofList, keys, NewAfter]
  | append_singleton entries entry ih =>
      rw [ofList_append, keys_set, List.map_append, List.map_singleton, newAfter_concat_iff, ← ih,
        ← mem_keys_ofList, ← mem_keys_ofList]
      split
      · rename_i hOld
        simp only [hOld, not_true, and_false, or_false]
      · rename_i hNew
        simp only [pair_sublist_concat_iff, hNew, not_false_iff, and_true]

end Fields

theorem pathsApart_irrefl (path : String) : ¬ PathsApart path path :=
  fun h => h.1 (List.prefix_refl _)

/-- Of flat fields that are expanded and merged in order, a value is kept if and
only if every key behind its own is apart from it. -/
theorem Fields.field?_unflatten_eq_iff {flat : Fields} (hKeys : flat.keys.Nodup)
    (hPlain : ∀ entry ∈ flat, entry.2.fields? = none) {key : String} {value : Value}
    (hEntry : (key, value) ∈ flat) :
    flat.unflatten.field? key = some value ↔
      ∀ name, [key, name].Sublist flat.keys → PathsApart name key := by
  obtain ⟨early, late, rfl⟩ := List.append_of_mem hEntry
  have hSplit : keys (early ++ (key, value) :: late) = keys early ++ key :: keys late := by
    simp [keys]
  rw [hSplit] at hKeys
  have hOther : ∀ entry ∈ late, entry.1 ≠ key := by
    intro entry hLate hSame
    have hRest := (List.nodup_append.mp hKeys).2.1
    exact (List.nodup_cons.mp hRest).1 (hSame ▸ List.mem_map_of_mem hLate)
  have hLate : ∀ entry ∈ late, entry.2.fields? = none := fun entry hEntry =>
    hPlain entry (List.mem_append_right _ (List.mem_cons_of_mem _ hEntry))
  have hValue : value.fields? = none := hPlain _ hEntry
  rw [unflatten, List.foldl_append, List.foldl_cons,
    field?_foldl_merge_eq_iff hOther hLate hValue, field?_merge_expand_self hValue, hSplit]
  simp only [pair_sublist_iff hKeys, and_true]
  rw [keys, List.forall_mem_map]

/-- No literal is an object, so setting one replaces what stood there. -/
theorem Literal.fields?_toValue (literal : Literal) : literal.toValue.fields? = none := by
  cases literal with
  | float x =>
      cases x with
      | _ => rfl
  | _ => rfl

mutual

theorem Literal.keysDistinct_toValue (literal : Literal) : literal.toValue.KeysDistinct := by
  cases literal with
  | float x =>
      cases x with
      | _ => trivial
  | array items => exact Literal.itemsDistinct_toValues items
  | _ => trivial

theorem Literal.itemsDistinct_toValues (items : List Literal) :
    Value.ItemsDistinct (Literal.toValues items) := by
  cases items with
  | nil => trivial
  | cons item rest => exact ⟨item.keysDistinct_toValue, itemsDistinct_toValues rest⟩

end

/-- A setter as a flat field. -/
def Setter.entry (setter : Setter) : String × Value :=
  (setter.property, setter.value.toValue)

theorem Setter.map_entry_fst (setters : List Setter) :
    (setters.map Setter.entry).map Prod.fst = setters.map Setter.property := by
  rw [List.map_map]
  rfl

/-- Setting is putting fields under the properties, one after the other. -/
theorem setFields_eq (setters : List Setter) :
    setFields setters = Fields.ofList (setters.map Setter.entry) :=
  rfl

theorem plain_setFields {setters : List Setter} :
    ∀ entry ∈ setFields setters, entry.2.fields? = none := by
  intro entry hEntry
  obtain ⟨setter, _, rfl⟩ := List.mem_map.mp (Fields.mem_of_mem_ofList hEntry)
  exact setter.value.fields?_toValue

/-- Setters of one property are merged before they are expanded. -/
theorem nodup_keys_setFields (setters : List Setter) : (setFields setters).keys.Nodup :=
  Fields.nodup_keys_ofList _

/-- The last setter of a property gives the flat field. -/
theorem entry_mem_setFields {after : List Setter} {setter : Setter}
    (h : setter.property ∉ after.map Setter.property) (before : List Setter) :
    setter.entry ∈ setFields (before ++ setter :: after) := by
  rw [← Setter.map_entry_fst] at h
  apply Fields.mem_of_get?
  rw [setFields_eq, List.map_append, List.map_cons]
  exact Fields.get?_ofList_last h _ _

/-- Which setters win. A value that no later setter touches is kept if and only
if every property that was new after its own had been set for the first time is
apart from it. -/
theorem patchOf_keeps_iff {before after : List Setter} {setter : Setter}
    (h : ∀ later ∈ after, PathsApart later.property setter.property) :
    (patchOf (before ++ setter :: after)).field? setter.property = some setter.value.toValue ↔
      ∀ name, NewAfter (before.map Setter.property) setter.property name →
        PathsApart name setter.property := by
  have hLast : setter.property ∉ after.map Setter.property := by
    intro hLater
    obtain ⟨later, hMem, hSame⟩ := List.mem_map.mp hLater
    exact pathsApart_irrefl _ (hSame ▸ h later hMem)
  have hEntry := entry_mem_setFields hLast before
  rw [patchOf, Fields.field?_unflatten_eq_iff (nodup_keys_setFields _) plain_setFields hEntry]
  simp only [setFields_eq, Fields.pair_sublist_keys_ofList_iff, Setter.map_entry_fst,
    List.map_append, List.map_cons]
  constructor
  · intro hAll name hNew
    exact hAll name (hNew.append _)
  · intro hAll name hNew
    rcases hNew.before_or_later with hBefore | hLater
    · exact hAll name hBefore
    · obtain ⟨later, hMem, rfl⟩ := List.mem_map.mp hLater
      exact h later hMem

/-- A value inside an object, and one in place of the whole object. -/
def crossedSetters : List Setter :=
  [⟨"a.b", .integer 1⟩, ⟨"a", .integer 2⟩]

/-- The setter in between wins, although the last one comes after it. -/
theorem patchOf_crossedSetters :
    patchOf (crossedSetters ++ [⟨"a.b", .integer 3⟩]) = [("a", .number (.integer 2))] := by
  rfl

/-- The third setter is the last and is lost: it only changes what the second
one replaces. -/
theorem not_later_setters_win :
    ¬ ∀ (before after : List Setter) (setter : Setter),
      (∀ later ∈ after, PathsApart later.property setter.property) →
      (patchOf (before ++ setter :: after)).field? setter.property = some setter.value.toValue := by
  intro hWin
  have hKept := hWin crossedSetters [] ⟨"a.b", .integer 3⟩ (by simp)
  have hLost : Fields.field? [("a", .number (.integer 2))] "a.b" = none := by rfl
  rw [patchOf_crossedSetters, hLost] at hKept
  cases hKept

/-- What is set again is lost to what came in between; what is set for the first
time is not. -/
theorem patchOf_keeps_iff_crossedSetters :
    ¬ (patchOf (crossedSetters ++ [⟨"a.b", .integer 3⟩])).field? "a.b" =
        some (.number (.integer 3)) ∧
    (patchOf (crossedSetters ++ [⟨"a.c", .integer 3⟩])).field? "a.c" =
        some (.number (.integer 3)) := by
  constructor
  · intro hKept
    have hApart := (@patchOf_keeps_iff crossedSetters [] ⟨"a.b", .integer 3⟩ (by simp)).mp hKept "a"
      ⟨["a.b"], [], rfl, by simp, by decide⟩
    exact absurd hApart (by decide +kernel)
  · apply (@patchOf_keeps_iff crossedSetters [] ⟨"a.c", .integer 3⟩ (by simp)).mpr
    rintro name ⟨before, after, hNames, hFirst, _⟩
    have hOld : "a.c" ∈ crossedSetters.map Setter.property :=
      hNames ▸ List.mem_append_left _ hFirst
    exact absurd hOld (by decide)

end DocQuery
