import DocQuery.Proofs.Document.Leaves
import DocQuery.Proofs.Document.Setters
import DocQuery.Proofs.Selection.Verdicts
import DocQuery.Proofs.Text.Trim
import DocQuery.Proofs.Value.Equality

/-! What a setter has written, read back. A look-up at the property finds the
value, whatever segments the property has. Flattening drops the points at the
start of a property, since it takes an empty name for none, so the local clauses
find what was set only if the property does not begin with a point. -/
namespace DocQuery

namespace Fields

/-- A dotted path without the points at its start. -/
def withoutLeadingPoints (path : String) : String :=
  String.ofList (path.toList.dropWhile (· == '.'))

/-- A leading point is dropped. -/
theorem withoutLeadingPoints_point (path : List Char) :
    withoutLeadingPoints (String.ofList ('.' :: path)) =
      withoutLeadingPoints (String.ofList path) := by
  simp [withoutLeadingPoints]

/-- A path is left as it is exactly if it begins with no point. -/
theorem withoutLeadingPoints_eq_self_iff (path : String) :
    withoutLeadingPoints path = path ↔ path.toList.head? ≠ some '.' := by
  rw [withoutLeadingPoints, ← String.toList_inj, String.toList_ofList]
  constructor
  · intro hSame hPoint
    have hHead := Text.head?_dropWhile (hSame.symm ▸ hPoint)
    cases hHead
  · intro hPoint
    refine Text.dropWhile_eq_self fun c hc => ?_
    exact beq_false_of_ne fun hSame => hPoint (hSame ▸ hc)

/-- The dotted key of some names is their path, but for empty names at the
start. -/
theorem foldl_dotted_eq (names : List String) (h : ∀ name ∈ names, '.' ∉ name.toList) :
    names.foldl dotted "" = withoutLeadingPoints (Text.join '.' names) := by
  induction names with
  | nil => rfl
  | cons name rest ih =>
      obtain ⟨hName, hRest⟩ := List.forall_mem_cons.mp h
      rw [List.foldl_cons, dotted, if_pos rfl]
      by_cases hEmpty : name = ""
      · subst hEmpty
        rw [ih hRest]
        cases rest with
        | nil => rfl
        | cons next rest =>
            have hJoin : Text.join '.' ("" :: next :: rest) =
                String.ofList ('.' :: (Text.join '.' (next :: rest)).toList) := by
              apply String.toList_inj.mp
              simp [Text.join, String.toList_intercalate, List.intercalate]
            rw [hJoin, withoutLeadingPoints_point, String.ofList_toList]
      · have hHead : (Text.join '.' (name :: rest)).toList.head? ≠ some '.' := by
          have hChars : name.toList ≠ [] := fun hNil => hEmpty (String.toList_eq_nil_iff.mp hNil)
          obtain ⟨c, chars, hCons⟩ := List.exists_cons_of_ne_nil hChars
          have hFirst : (Text.join '.' (name :: rest)).toList.head? = some c := by
            cases rest with
            | nil => simp [Text.join, hCons]
            | cons next rest => simp [Text.join, String.toList_intercalate, List.intercalate, hCons]
          rw [hFirst]
          exact fun hPoint => hName (hCons ▸ Option.some.inj hPoint ▸ List.mem_cons_self)
        rw [foldl_dotted hEmpty, (withoutLeadingPoints_eq_self_iff _).mpr hHead]

/-- Putting the names of a path together loses the points that it begins with,
since an empty name at the front counts as no name. -/
theorem foldl_dotted_fieldPath_eq (path : String) :
    (fieldPath path).foldl dotted "" = withoutLeadingPoints path :=
  (foldl_dotted_eq _ fun _ hName => Text.not_mem_of_mem_split hName).trans
    (congrArg withoutLeadingPoints (Text.join_split '.' path))

section Nested

variable {value : Value}

/-- A plain value inside objects of one field each is their only leaf. -/
theorem leaves_nest (h : value.fields? = none) (path : List String) :
    (nest path value).leaves = [(path, value)] := by
  induction path with
  | nil =>
      cases value with
      | object fields => cases h
      | _ => rfl
  | cons name rest ih =>
      rw [nest, Value.leaves_object rfl, Value.fieldLeaves, ih]
      rfl

theorem flatten_expand (h : value.fields? = none) (path : String) :
    (expand path value).flatten = [(withoutLeadingPoints path, value)] := by
  obtain ⟨name, rest, hPath⟩ := List.exists_cons_of_ne_nil (fieldPath_ne_nil path)
  have hLeaves : Value.fieldLeaves (expand path value) = [(fieldPath path, value)] := by
    rw [expand, hPath, Value.fieldLeaves, leaves_nest h]
    rfl
  rw [flatten_eq_ofList, dottedLeaves, hLeaves, ← foldl_dotted_fieldPath_eq]
  rfl

end Nested

end Fields

namespace Setter

/-- One setter alone is expanded and not merged into anything. -/
theorem patchOf_singleton (setter : Setter) :
    patchOf [setter] = Fields.expand setter.property setter.value.toValue := by
  obtain ⟨name, rest, hPath⟩ := List.exists_cons_of_ne_nil (fieldPath_ne_nil setter.property)
  have hPatch : patchOf [setter] =
      Fields.merge [] (Fields.expand setter.property setter.value.toValue) := rfl
  rw [hPatch, Fields.expand, hPath, Fields.merge_cons, Fields.merge_nil, Fields.get?_nil,
    Fields.mergeValue_none]
  rfl

/-- What a single setter writes is flattened under its path without leading
points. -/
theorem flatten_patchOf (setter : Setter) : (patchOf [setter]).flatten =
    [(Fields.withoutLeadingPoints setter.property, setter.value.toValue)] := by
  rw [patchOf_singleton, Fields.flatten_expand setter.value.fields?_toValue]

/-- In the flattened document the value of a setter is found unless its path
begins with a point. -/
theorem get?_flatten_patchOf (setter : Setter) :
    (patchOf [setter]).flatten.get? setter.property =
      if setter.property.toList.head? = some '.' then none else some setter.value.toValue := by
  have hSelf := Fields.withoutLeadingPoints_eq_self_iff setter.property
  rw [flatten_patchOf, Fields.get?_cons]
  by_cases hPoint : setter.property.toList.head? = some '.'
  · rw [if_neg fun hSame => hSelf.mp hSame.symm hPoint, if_pos hPoint, Fields.get?_nil]
  · rw [if_pos (hSelf.mpr hPoint).symm, if_neg hPoint]

/-- In the document itself the value of a setter is always found. -/
theorem field?_patchOf (setter : Setter) :
    (patchOf [setter]).field? setter.property = some setter.value.toValue :=
  Fields.field?_merge_expand_self setter.value.fields?_toValue [] setter.property

/-- Who finds what a setter has written. Look-ups and the store find the value
at its property. Flattening lists it under the property without the points at
its start, so a local clause finds it if and only if there are none. -/
theorem written_found_by (setter : Setter) :
    (patchOf [setter]).field? setter.property = some setter.value.toValue ∧
    (Value.object (patchOf [setter])).field? setter.property = some setter.value.toValue ∧
    (patchOf [setter]).flatten =
      [(Fields.withoutLeadingPoints setter.property, setter.value.toValue)] ∧
    (patchOf [setter]).flatten.get? setter.property =
      (if setter.property.toList.head? = some '.' then none else some setter.value.toValue) ∧
    (∃ filter, Plan.filterOf ⟨setter.property, .equal, setter.value, false⟩ = .ok filter ∧
      filter.holds (patchOf [setter]) = true) ∧
    (Clause.holds ⟨setter.property, .equal, setter.value, true⟩ (patchOf [setter]).flatten = true ↔
      setter.property.toList.head? ≠ some '.') := by
  have hField := setter.field?_patchOf
  have hFlat := setter.get?_flatten_patchOf
  have hEqual := setter.value.toValue.equal_refl setter.value.keysDistinct_toValue
  refine ⟨hField, (Fields.field?_eq _ _).symm.trans hField, setter.flatten_patchOf, hFlat, ?_, ?_⟩
  · refine ⟨_, rfl, ?_⟩
    rw [Filter.holds, hField]
    exact hEqual
  · rw [Clause.holds, hFlat]
    by_cases hPoint : setter.property.toList.head? = some '.'
    · simp [hPoint]
    · rw [if_neg hPoint]
      exact ⟨fun _ => hPoint, fun _ => hEqual⟩

/-- A value below an empty name is there for look-ups and lost for local
clauses. -/
theorem not_found_by_every_reader :
    ¬ ∀ setter : Setter,
      (patchOf [setter]).field? setter.property = some setter.value.toValue ∧
      (Value.object (patchOf [setter])).field? setter.property = some setter.value.toValue ∧
      (patchOf [setter]).flatten.get? setter.property = some setter.value.toValue := by
  intro hFound
  have hFlat := (hFound ⟨".a", .integer 1⟩).2.2
  have hLost : (patchOf [⟨".a", .integer 1⟩]).flatten.get? ".a" = none := by rfl
  rw [hLost] at hFlat
  cases hFlat

end Setter

end DocQuery
