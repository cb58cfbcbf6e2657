import DocQuery.Proofs.Document.Merge
import DocQuery.Proofs.Value.Fields

/-! Merging one patch after another. The two patches can also be merged together
first, with the same fields in the same order, unless the first one puts a plain
value where the second one has an object. One after the other they leave that
object alone in its place, and together they merge it into what was there
before. -/
namespace DocQuery

/-- Wherever the second value has an object, the first has one or has
nothing. -/
def Value.MakesRoomFor (first second : Value) : Prop :=
  ∀ path found inner, first.follow path = some found → second.follow path = some (.object inner) →
    ∃ fields, found = .object fields

/-- What is found inside a value with distinct names has distinct names too. -/
theorem Value.keysDistinct_of_follow {names : List String} {value found : Value}
    (h : value.KeysDistinct) (hFound : value.follow names = some found) : found.KeysDistinct := by
  induction names generalizing value with
  | nil => exact Option.some.inj hFound ▸ h
  | cons name rest ih =>
      cases value with
      | object fields =>
          obtain ⟨inner, hInner, hRest⟩ := Option.bind_eq_some_iff.mp hFound
          exact ih (Fields.fieldsDistinct_iff.mp h.2 _ (Fields.mem_of_get? hInner)) hRest
      | null | bool b | number n | string s | array items => cases hFound

namespace Fields

section Merge

variable {fields patch : Fields} {key : String} {value : Value}

/-- A patch leaves alone what it does not name. -/
theorem get?_merge_of_not_mem (h : key ∉ patch.keys) (fields : Fields) :
    (fields.merge patch).get? key = fields.get? key := by
  induction patch generalizing fields with
  | nil => rw [merge_nil]
  | cons entry rest ih =>
      obtain ⟨hKey, hRest⟩ := not_or.mp fun hMem => h (List.mem_cons.mpr hMem)
      rw [merge_cons, ih hRest, get?_set_of_ne hKey]

theorem nodup_keys_merge (h : fields.keys.Nodup) (patch : Fields) :
    (fields.merge patch).keys.Nodup := by
  induction patch generalizing fields with
  | nil => rwa [merge_nil]
  | cons entry rest ih =>
      rw [merge_cons]
      exact ih (nodup_keys_set h _ _)

/-- To give a field after merging in others is to give it before. -/
theorem set_merge (hThere : key ∈ fields.keys) (h : key ∉ patch.keys) (value : Value) :
    (fields.merge patch).set key value = (fields.set key value).merge patch := by
  induction patch generalizing fields with
  | nil => rw [merge_nil, merge_nil]
  | cons entry rest ih =>
      obtain ⟨name, first⟩ := entry
      obtain ⟨hKey, hRest⟩ := not_or.mp fun hMem => h (List.mem_cons.mpr hMem)
      rw [merge_cons, merge_cons, ih (mem_keys_set.mpr (Or.inl hThere)) hRest,
        set_comm (Ne.symm hKey) hThere, get?_set_of_ne (Ne.symm hKey)]

/-- Merged into nothing, fields with distinct names stay as they are. -/
theorem merge_nil_left (h : patch.keys.Nodup) : merge [] patch = patch := by
  have hMerge (fields : Fields) (hKeys : (fields.keys ++ patch.keys).Nodup) :
      fields.merge patch = fields ++ patch := by
    induction patch generalizing fields with
    | nil => rw [merge_nil, List.append_nil]
    | cons entry rest ih =>
        obtain ⟨name, first⟩ := entry
        have hNew : name ∉ fields.keys := fun hOld =>
          (List.nodup_append.mp hKeys).2.2 name hOld name List.mem_cons_self rfl
        rw [merge_cons, get?_eq_none_iff.mpr hNew, mergeValue_none, set_of_not_mem hNew,
          ih (List.nodup_cons.mp h).2 _ (by simpa [keys] using hKeys), List.append_assoc]
        rfl
  exact hMerge [] h

/-- Merging an object is merging its fields into whatever stood there. -/
theorem mergeValue_object (h : patch.keys.Nodup) (old : Option Value) :
    mergeValue old (.object patch) = .object ((ofValue? old).merge patch) := by
  have hFresh : Value.object patch = .object (merge [] patch) := by rw [merge_nil_left h]
  cases old with
  | none => exact hFresh
  | some found =>
      cases found with
      | object fields => rfl
      | _ => exact hFresh

/-- A field that a patch merges into others can be merged into the patch
instead. -/
theorem merge_set (hKeys : patch.keys.Nodup)
    (hValue : ∀ first ∈ patch.get? key, ∀ old,
      mergeValue (some (mergeValue old first)) value =
        mergeValue old (mergeValue (some first) value)) (fields : Fields) :
    (fields.merge patch).set key (mergeValue ((fields.merge patch).get? key) value) =
      fields.merge (patch.set key (mergeValue (patch.get? key) value)) := by
  induction patch generalizing fields with
  | nil => rw [merge_nil, get?_nil, mergeValue_none, set, merge_cons, merge_nil]
  | cons entry rest ih =>
      obtain ⟨name, first⟩ := entry
      obtain ⟨hNew, hRest⟩ := List.nodup_cons.mp hKeys
      by_cases hName : key = name
      · subst hName
        have hFirst : Fields.get? ((key, first) :: rest) key = some first := by
          rw [get?_cons, if_pos rfl]
        have hThere : key ∈ (fields.set key (mergeValue (fields.get? key) first)).keys :=
          mem_keys_set.mpr (Or.inr rfl)
        rw [hFirst, set, if_pos rfl, merge_cons, merge_cons, get?_merge_of_not_mem hNew,
          get?_set_self, hValue first hFirst, set_merge hThere hNew, set_set]
      · have hLater : Fields.get? ((name, first) :: rest) key = get? rest key := by
          rw [get?_cons, if_neg hName]
        rw [hLater] at hValue ⊢
        rw [set, if_neg (Ne.symm hName), merge_cons, merge_cons, ih hRest hValue]

end Merge

theorem keysDistinct_ofValue? {old : Option Value} (h : ∀ found ∈ old, found.KeysDistinct) :
    (Value.object (ofValue? old)).KeysDistinct := by
  cases old with
  | none => exact ⟨List.nodup_nil, trivial⟩
  | some found =>
      cases found with
      | object fields => exact h _ rfl
      | _ => exact ⟨List.nodup_nil, trivial⟩

mutual

/-- What is merged from values without repeated names has none. -/
theorem keysDistinct_mergeValue {old : Option Value} (hOld : ∀ found ∈ old, found.KeysDistinct)
    {value : Value} (h : value.KeysDistinct) : (mergeValue old value).KeysDistinct := by
  cases value with
  | object patch =>
      rw [mergeValue_object h.1]
      exact keysDistinct_merge (keysDistinct_ofValue? hOld) h.2
  | _ => exact h

/-- Merging keeps names distinct at every depth. -/
theorem keysDistinct_merge {fields patch : Fields} (hFields : (Value.object fields).KeysDistinct)
    (h : Value.FieldsDistinct patch) : (Value.object (fields.merge patch)).KeysDistinct := by
  cases patch with
  | nil => rwa [merge_nil]
  | cons entry rest =>
      obtain ⟨key, value⟩ := entry
      rw [merge_cons]
      refine keysDistinct_merge (keysDistinct_set hFields key ?_) h.2
      refine keysDistinct_mergeValue (fun found hFound => ?_) h.1
      exact fieldsDistinct_iff.mp hFields.2 _ (mem_of_get? hFound)

end

section Room

variable {fields rest : Fields} {key : String} {value : Value}
  (h : (Value.object fields).MakesRoomFor (.object ((key, value) :: rest)))
include h

/-- Room for a whole patch is room for each of its fields. -/
theorem makesRoomFor_field {first : Value} (hFirst : fields.get? key = some first) :
    first.MakesRoomFor value := by
  intro path found inner hFound hInner
  have hThere : (Value.object ((key, value) :: rest)).follow (key :: path) =
      value.follow path := by
    rw [Value.follow, get?_cons, if_pos rfl, Option.bind_some]
  refine h (key :: path) found inner ?_ (hThere.trans hInner)
  rw [Value.follow, hFirst, Option.bind_some, hFound]

/-- Merging the first field leaves the room for the others as it was. -/
theorem makesRoomFor_rest (hNew : key ∉ rest.keys) (merged : Value) :
    (Value.object (fields.set key merged)).MakesRoomFor (.object rest) := by
  intro path found inner hFound hInner
  cases path with
  | nil => exact ⟨_, (Option.some.inj hFound).symm⟩
  | cons name path =>
      obtain ⟨below, hBelow, hRest⟩ := Option.bind_eq_some_iff.mp hInner
      have hNe : name ≠ key := fun hSame =>
        hNew (hSame ▸ List.mem_map_of_mem (mem_of_get? hBelow))
      rw [Value.follow, get?_set_of_ne hNe] at hFound
      refine h (name :: path) found inner hFound ?_
      rw [Value.follow, get?_cons, if_neg hNe]
      exact hInner

end Room

mutual

/-- Two patches can be merged together first, if the first makes room for the
second. -/
theorem mergeValue_assoc (old : Option Value) {first second : Value}
    (h : first.MakesRoomFor second) (hFirst : first.KeysDistinct) (hSecond : second.KeysDistinct) :
    mergeValue (some (mergeValue old first)) second =
      mergeValue old (mergeValue (some first) second) := by
  cases second with
  | object patch =>
      obtain ⟨fields, rfl⟩ := h [] first patch rfl rfl
      have hTogether : mergeValue (some (.object fields)) (.object patch) =
          .object (merge fields patch) := rfl
      rw [hTogether, mergeValue_object hFirst.1,
        mergeValue_object (nodup_keys_merge hFirst.1 patch)]
      exact congrArg Value.object (merge_assoc (ofValue? old) h hFirst hSecond.1 hSecond.2)
  | _ => rfl

/-- Where the first patch has room for the second, merging one after the other
is merging both at once. -/
theorem merge_assoc (target : Fields) {fields patch : Fields}
    (h : (Value.object fields).MakesRoomFor (.object patch))
    (hFields : (Value.object fields).KeysDistinct) (hKeys : patch.keys.Nodup)
    (hPatch : Value.FieldsDistinct patch) :
    (target.merge fields).merge patch = target.merge (fields.merge patch) := by
  cases patch with
  | nil => rw [merge_nil, merge_nil]
  | cons entry rest =>
      obtain ⟨key, value⟩ := entry
      obtain ⟨hNew, hRest⟩ := List.nodup_cons.mp hKeys
      have hValue : ∀ first ∈ fields.get? key, ∀ old,
          mergeValue (some (mergeValue old first)) value =
            mergeValue old (mergeValue (some first) value) := fun first hFirst old =>
        mergeValue_assoc old (makesRoomFor_field h hFirst)
          (fieldsDistinct_iff.mp hFields.2 _ (mem_of_get? hFirst)) hPatch.1
      rw [merge_cons, merge_cons, merge_set hFields.1 hValue]
      refine merge_assoc target (makesRoomFor_rest h hNew _) ?_ hRest hPatch.2
      refine keysDistinct_set hFields key
        (keysDistinct_mergeValue (fun first hFirst => ?_) hPatch.1)
      exact fieldsDistinct_iff.mp hFields.2 _ (mem_of_get? hFirst)

end

end Fields

end DocQuery
