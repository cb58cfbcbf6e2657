import DocQuery.Value.Basic
import Mathlib.Data.List.Induction
import Mathlib.Data.List.Nodup
import Mathlib.Data.List.Perm.Subperm

/-! Fields with distinct names. Looking a name up finds the one field of that
name, and naming the fields one after the other keeps each in its place. -/
namespace DocQuery.Fields

variable {fields : Fields}

theorem mem_of_get? {key : String} {value : Value} (h : fields.get? key = some value) :
    (key, value) ∈ fields := by
  induction fields with
  | nil => cases h
  | cons entry rest ih =>
      obtain ⟨name, first⟩ := entry
      rw [get?_cons] at h
      split at h
      · rename_i hName
        rw [hName, Option.some.inj h]
        exact List.mem_cons_self
      · exact List.mem_cons_of_mem _ (ih h)

theorem get?_of_mem (hDistinct : fields.keys.Nodup) {key : String} {value : Value}
    (h : (key, value) ∈ fields) : fields.get? key = some value := by
  induction fields with
  | nil => cases h
  | cons entry rest ih =>
      obtain ⟨name, first⟩ := entry
      obtain ⟨hAbsent, hRest⟩ := List.nodup_cons.mp hDistinct
      rw [get?_cons]
      obtain hHere | hThere := List.mem_cons.mp h
      · obtain ⟨rfl, rfl⟩ := Prod.mk.inj hHere
        exact if_pos rfl
      · have hKey : key ∈ rest.map Prod.fst := List.mem_map_of_mem (f := Prod.fst) hThere
        have hName : key ≠ name := fun hSame => hAbsent (hSame ▸ hKey)
        rw [if_neg hName]
        exact ih hRest hThere

theorem get?_eq_some_iff (hDistinct : fields.keys.Nodup) {key : String} {value : Value} :
    fields.get? key = some value ↔ (key, value) ∈ fields :=
  ⟨mem_of_get?, get?_of_mem hDistinct⟩

theorem get?_eq_none_iff {key : String} :
    fields.get? key = none ↔ key ∉ fields.keys := by
  induction fields with
  | nil => simp [keys]
  | cons entry rest ih =>
      obtain ⟨name, value⟩ := entry
      rw [get?_cons]
      by_cases hName : key = name
      · simp [keys, hName]
      · simpa [keys, hName] using ih

/-- A new name comes last. -/
theorem set_of_not_mem {key : String} (h : key ∉ fields.keys) (value : Value) :
    fields.set key value = fields ++ [(key, value)] := by
  induction fields with
  | nil => rfl
  | cons entry rest ih =>
      obtain ⟨name, first⟩ := entry
      obtain ⟨hName, hRest⟩ := not_or.mp fun hFound => h (List.mem_cons.mpr hFound)
      rw [set, if_neg (Ne.symm hName), ih hRest, List.cons_append]

theorem set_set (key : String) (value last : Value) (fields : Fields) :
    (fields.set key value).set key last = fields.set key last := by
  induction fields with
  | nil => simp [set]
  | cons entry rest ih =>
      obtain ⟨name, first⟩ := entry
      by_cases hName : name = key
      · simp [set, hName]
      · simp [set, hName, ih]

/-- A field that is there keeps its place, so others can be given before or
after it. -/
theorem set_comm {key other : String} (hNe : other ≠ key) (hThere : key ∈ fields.keys)
    (value last : Value) :
    (fields.set other value).set key last = (fields.set key last).set other value := by
  induction fields with
  | nil => cases hThere
  | cons entry rest ih =>
      obtain ⟨name, first⟩ := entry
      by_cases hName : name = key
      · subst hName
        simp [set, hNe.symm]
      · have hRest : key ∈ keys rest := by simpa [keys, Ne.symm hName] using hThere
        by_cases hOther : name = other
        · subst hOther
          simp [set, hNe]
        · simp [set, hName, hOther, ih hRest]

theorem mem_keys_set {key other : String} {value : Value} :
    key ∈ (fields.set other value).keys ↔ key ∈ fields.keys ∨ key = other := by
  rw [keys_set]
  split
  · rename_i hOld
    exact ⟨Or.inl, fun h => h.elim id fun hSame => hSame ▸ hOld⟩
  · rw [List.mem_append, List.mem_singleton]

theorem ofList_append (entries : List (String × Value)) (key : String) (value : Value) :
    ofList (entries ++ [(key, value)]) = (ofList entries).set key value := by
  rw [ofList, List.foldl_append]
  rfl

/-- Entries without a repeated name are fields as they are. -/
theorem ofList_eq_self {entries : List (String × Value)} (h : (entries.map Prod.fst).Nodup) :
    ofList entries = entries := by
  induction entries using List.reverseRecOn with
  | nil => rfl
  | append_singleton entries entry ih =>
      rw [List.map_append, List.map_singleton, List.nodup_append] at h
      obtain ⟨hEntries, _, hApart⟩ := h
      have hNew : entry.1 ∉ keys entries := fun hOld =>
        hApart entry.1 hOld entry.1 List.mem_cons_self rfl
      rw [ofList_append, ih hEntries, set_of_not_mem hNew]

theorem mem_keys_ofList (entries : List (String × Value)) (key : String) :
    key ∈ (ofList entries).keys ↔ key ∈ entries.map Prod.fst := by
  induction entries using List.reverseRecOn with
  | nil => rfl
  | append_singleton entries entry ih =>
      rw [ofList_append, mem_keys_set, List.map_append, List.mem_append, List.map_singleton,
        List.mem_singleton, ih]

theorem nodup_keys_set (h : fields.keys.Nodup) (key : String) (value : Value) :
    (fields.set key value).keys.Nodup := by
  rw [keys_set]
  split
  · exact h
  · rename_i hNew
    exact List.nodup_append.mpr ⟨h, List.nodup_singleton _, fun name hName other hOther hSame =>
      hNew (List.mem_singleton.mp hOther ▸ hSame ▸ hName)⟩

theorem nodup_keys_ofList (entries : List (String × Value)) : (ofList entries).keys.Nodup := by
  induction entries using List.reverseRecOn with
  | nil => exact List.nodup_nil
  | append_singleton entries entry ih =>
      rw [ofList_append]
      exact nodup_keys_set ih entry.1 entry.2

/-- A repeated name leaves fewer fields than entries. -/
theorem length_ofList_lt {entries : List (String × Value)} (h : ¬ (entries.map Prod.fst).Nodup) :
    (ofList entries).length < entries.length := by
  have hSub : (ofList entries).keys ⊆ entries.map Prod.fst := fun key hKey =>
    (mem_keys_ofList entries key).mp hKey
  have hSubperm := List.subperm_of_subset (nodup_keys_ofList entries) hSub
  have hLength : (ofList entries).length ≤ entries.length := by
    simpa [keys] using hSubperm.length_le
  refine Nat.lt_of_le_of_ne hLength fun hSame => h ?_
  have hPerm := hSubperm.perm_of_length_le (by simp [keys, hSame])
  exact hPerm.nodup_iff.mp (nodup_keys_ofList entries)

theorem fieldsDistinct_iff {fields : Fields} :
    Value.FieldsDistinct fields ↔ ∀ field ∈ fields, field.2.KeysDistinct := by
  induction fields with
  | nil => simp [Value.FieldsDistinct]
  | cons field rest ih => rw [List.forall_mem_cons, ← ih, Value.FieldsDistinct]

theorem mem_of_mem_set {key : String} {value : Value} {field : String × Value}
    (h : field ∈ fields.set key value) : field ∈ fields ∨ field = (key, value) := by
  induction fields with
  | nil => exact .inr (List.mem_singleton.mp h)
  | cons entry rest ih =>
      rw [set] at h
      split at h
      · rename_i hName
        rcases List.mem_cons.mp h with rfl | hRest
        · exact .inr (by rw [hName])
        · exact .inl (List.mem_cons_of_mem _ hRest)
      · rcases List.mem_cons.mp h with rfl | hRest
        · exact .inl List.mem_cons_self
        · exact (ih hRest).imp_left (List.mem_cons_of_mem _)

theorem keysDistinct_set (h : (Value.object fields).KeysDistinct) (key : String) {value : Value}
    (hValue : value.KeysDistinct) : (Value.object (fields.set key value)).KeysDistinct := by
  obtain ⟨hKeys, hFields⟩ := h
  refine ⟨nodup_keys_set hKeys key value, fieldsDistinct_iff.mpr fun field hField => ?_⟩
  rcases mem_of_mem_set hField with hOld | rfl
  · exact fieldsDistinct_iff.mp hFields field hOld
  · exact hValue

end DocQuery.Fields
