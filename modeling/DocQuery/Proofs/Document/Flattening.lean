import DocQuery.Proofs.Document.Leaves
import DocQuery.Proofs.Document.Updating

/-! Flattening loses nothing. The dotted keys of a flattened document are the
paths of its leaves in the order of the document, each once, and to expand the
keys and merge them one after the other builds the document again with every
field in its place. -/
namespace DocQuery.Fields

/-- Setting a field to what it holds changes nothing, since its place is
kept. -/
theorem set_eq_self {fields : Fields} {key : String} {value : Value}
    (h : fields.get? key = some value) : fields.set key value = fields := by
  induction fields with
  | nil => cases h
  | cons entry rest ih =>
      obtain ⟨name, first⟩ := entry
      rw [get?_cons] at h
      by_cases hName : key = name
      · rw [if_pos hName] at h
        rw [set, if_pos hName.symm, Option.some.inj h]
      · rw [if_neg hName] at h
        rw [set, if_neg (Ne.symm hName), ih h]

/-- What a place holds after leaves were merged in one after the other, each
inside objects for the names that lead to it. -/
def mergeLeaves (old : Option Value) (leaves : List (List String × Value)) : Option Value :=
  leaves.foldl (fun old leaf => some (mergeValue old (nest leaf.1 leaf.2))) old

/-- Leaves are merged in one by one. -/
theorem mergeLeaves_append (old : Option Value) (first second : List (List String × Value)) :
    mergeLeaves old (first ++ second) = mergeLeaves (mergeLeaves old first) second :=
  List.foldl_append

/-- Leaves below a name are merged into the field of that name. -/
theorem mergeLeaves_below {old : Option Value} {name : String}
    {leaves : List (List String × Value)} {value : Value}
    (h : mergeLeaves ((ofValue? old).get? name) leaves = some value) :
    mergeLeaves old (leaves.map fun leaf => (name :: leaf.1, leaf.2)) =
      some (.object ((ofValue? old).set name value)) := by
  induction leaves generalizing old with
  | nil =>
      have hThere : (ofValue? old).get? name = some value := h
      rw [set_eq_self hThere]
      cases old with
      | none => cases hThere
      | some found =>
          cases found with
          | object fields => rfl
          | _ => cases hThere
  | cons leaf rest ih =>
      have hStep : mergeLeaves old ((leaf :: rest).map fun leaf => (name :: leaf.1, leaf.2)) =
          mergeLeaves (some (mergeValue old (nest (name :: leaf.1) leaf.2)))
            (rest.map fun leaf => (name :: leaf.1, leaf.2)) := rfl
      rw [hStep, mergeValue_nest_cons]
      have hMerged := get?_set_self name
        (mergeValue ((ofValue? old).get? name) (nest leaf.1 leaf.2)) (ofValue? old)
      rw [ih (hMerged ▸ h)]
      exact congrArg (fun fields => some (Value.object fields)) (set_set name _ value _)

/-- A field that can be built from its leaves is built as the last one. -/
theorem mergeLeaves_field {old : Option Value} {name : String} {value : Value}
    (hValue : mergeLeaves none value.leaves = some value) (hNew : name ∉ (ofValue? old).keys)
    (rest : Fields) :
    mergeLeaves old (Value.fieldLeaves ((name, value) :: rest)) =
      mergeLeaves (some (.object (ofValue? old ++ [(name, value)]))) (Value.fieldLeaves rest) := by
  rw [← get?_eq_none_iff.mpr hNew] at hValue
  rw [Value.fieldLeaves, mergeLeaves_append, mergeLeaves_below hValue, set_of_not_mem hNew]

mutual

/-- A value is built again from its leaves. -/
theorem mergeLeaves_leaves {value : Value} (h : value.KeysDistinct) :
    mergeLeaves none value.leaves = some value := by
  cases hLeaf : value.isLeaf with
  | true =>
      rw [Value.leaves_of_isLeaf hLeaf]
      exact congrArg some (mergeValue_none value)
  | false =>
      cases value with
      | object fields =>
          rw [Value.leaves_object hLeaf]
          cases fields with
          | nil => cases hLeaf
          | cons entry rest =>
              obtain ⟨name, first⟩ := entry
              obtain ⟨hNames, hFirst, hRest⟩ := h
              rw [mergeLeaves_field (mergeLeaves_leaves hFirst) (List.not_mem_nil)]
              exact mergeLeaves_fieldLeaves hNames hRest
      | _ => cases hLeaf

/-- Merging the leaves of new fields appends these fields. -/
theorem mergeLeaves_fieldLeaves {fields rest : Fields} (hNames : (fields ++ rest).keys.Nodup)
    (h : Value.FieldsDistinct rest) :
    mergeLeaves (some (.object fields)) (Value.fieldLeaves rest) =
      some (.object (fields ++ rest)) := by
  cases rest with
  | nil => rw [List.append_nil]; rfl
  | cons entry rest =>
      obtain ⟨name, value⟩ := entry
      obtain ⟨hValue, hRest⟩ := h
      have hApart : (fields.keys ++ name :: keys rest).Nodup := by
        simpa [keys] using hNames
      have hNew : name ∉ fields.keys := fun hOld =>
        (List.nodup_append.mp hApart).2.2 name hOld name List.mem_cons_self rfl
      rw [List.append_cons] at hNames ⊢
      rw [mergeLeaves_field (mergeLeaves_leaves hValue) hNew]
      exact mergeLeaves_fieldLeaves hNames hRest

end

/-- To expand dotted keys and merge them is to merge their values in as
leaves. -/
theorem object_mergeAll (fields : Fields) (flat : List (String × Value)) :
    some (Value.object (fields.mergeAll flat)) =
      mergeLeaves (some (.object fields)) (flat.map fun entry => (fieldPath entry.1, entry.2)) := by
  induction flat generalizing fields with
  | nil => rfl
  | cons entry rest ih =>
      rw [mergeAll_cons, ih, object_merge_expand]
      rfl

section Plain

variable {fields : Fields} (hDistinct : (Value.object fields).KeysDistinct)
  (hPlain : (Value.object fields).NamesPlain)
include hPlain

/-- The dotted key of a leaf is its path, with points between the names. -/
theorem dottedLeaves_eq : fields.dottedLeaves =
    (Value.fieldLeaves fields).map fun leaf => (Text.join '.' leaf.1, leaf.2) := by
  refine List.map_congr_left fun leaf hLeaf => ?_
  obtain ⟨name, rest, hNames, _⟩ := Value.exists_cons_of_mem_fieldLeaves hLeaf
  have hName := Value.isPlainName_of_mem_fieldLeaves hPlain hLeaf name (hNames ▸ List.mem_cons_self)
  rw [hNames, List.foldl_cons, dotted, if_pos rfl, foldl_dotted hName.1]

/-- The keys of the leaves lead back to them. -/
theorem map_fieldPath_dottedLeaves :
    fields.dottedLeaves.map (fun entry => (fieldPath entry.1, entry.2)) =
      Value.fieldLeaves fields := by
  rw [dottedLeaves, List.map_map]
  refine (List.map_congr_left fun leaf hLeaf => ?_).trans (List.map_id _)
  obtain ⟨name, rest, hNames, _⟩ := Value.exists_cons_of_mem_fieldLeaves hLeaf
  have hPath := fieldPath_foldl_dotted (hNames ▸ List.cons_ne_nil name rest)
    (Value.isPlainName_of_mem_fieldLeaves hPlain hLeaf)
  exact congrArg (·, leaf.2) hPath

include hDistinct

/-- A flattened document is built again from its dotted keys. -/
theorem unflatten_flatten : fields.flatten.unflatten = fields := by
  have hLeaves : mergeLeaves (some (.object [])) (Value.fieldLeaves fields) =
      some (.object fields) := mergeLeaves_fieldLeaves hDistinct.1 hDistinct.2
  have hBuilt := object_mergeAll [] fields.dottedLeaves
  rw [map_fieldPath_dottedLeaves hPlain, hLeaves] at hBuilt
  rw [flatten_eq_dottedLeaves hDistinct hPlain, unflatten_eq]
  exact Value.object.inj (Option.some.inj hBuilt)

/-- The keys of a flattened document are the paths of its leaves in the order of
the document, no two leaves share a key, and from its keys and values the
document is built again. -/
theorem flatten_lossless :
    (∀ name names leaf, (name :: names, leaf) ∈ Value.fieldLeaves fields ↔
      (Value.object fields).follow (name :: names) = some leaf ∧ leaf.isLeaf = true) ∧
    fields.flatten = (Value.fieldLeaves fields).map (fun leaf => (Text.join '.' leaf.1, leaf.2)) ∧
    fields.flatten.keys.Nodup ∧
    fields.flatten.unflatten = fields := by
  have hFlat := flatten_eq_dottedLeaves hDistinct hPlain
  refine ⟨fun name names leaf => ?_, ?_, ?_, unflatten_flatten hDistinct hPlain⟩
  · exact Value.mem_fieldLeaves_iff hDistinct.1 hDistinct.2 name names leaf
  · exact hFlat.trans (dottedLeaves_eq hPlain)
  · rw [hFlat]
    exact nodup_dottedLeaves hDistinct hPlain

end Plain

/-- Fields with an empty object among their leaves, and with a field behind
it. -/
def nestedFields : Fields :=
  [("a", .object [("b", .null), ("c", .object [("d", .object [])])]), ("b", .array [.bool true])]

/-- Two levels of fields, flattened and put together again. -/
theorem flatten_lossless_nestedFields :
    (Value.object nestedFields).KeysDistinct ∧ (Value.object nestedFields).NamesPlain ∧
      nestedFields.flatten.keys = ["a.b", "a.c.d", "b"] ∧
      nestedFields.flatten.unflatten = nestedFields := by
  have hDistinct : (Value.object nestedFields).KeysDistinct := by
    simp [nestedFields, Value.KeysDistinct, Value.FieldsDistinct, Value.ItemsDistinct, keys]
  have hPlain : (Value.object nestedFields).NamesPlain := by
    simp [nestedFields, Value.NamesPlain, Value.FieldsPlain, IsPlainName]
  obtain ⟨_, hFlat, _, hBuilt⟩ := flatten_lossless hDistinct hPlain
  refine ⟨hDistinct, hPlain, ?_, hBuilt⟩
  rw [hFlat]
  rfl

end DocQuery.Fields
