import DocQuery.Proofs.Document.Leaves
import DocQuery.Selection.Local

/-! When a local clause and the filter that it would be for the store disagree
about a document. Both look the property up and find the same value, but for
objects with fields, which flattening takes apart; on a value that both find
they differ for two operators only. -/
namespace DocQuery

/-- The property holds an object with fields. -/
def Fields.HoldsFields (fields : Fields) (property : String) : Prop :=
  ∃ inner, fields.field? property = some (.object inner) ∧ inner ≠ []

namespace Clause

/-- What the store keeps and the local evaluation drops. -/
inductive OnlyStoreKeeps (clause : Clause) (fields : Fields) : Prop where
  /-- An object with fields differs from every constant. -/
  | different (hOperator : clause.operator = .notEqual)
      (hField : fields.HoldsFields clause.property)
  /-- It is also outside of every list of constants. -/
  | outside {options : List Literal} (hOperator : clause.operator = .notIn)
      (hValue : clause.value = .array options) (hField : fields.HoldsFields clause.property)
  /-- Some of the wanted items are there, and some are not. -/
  | someWanted {wanted : List Literal} {items : List Value}
      (hOperator : clause.operator = .arrayContainsAny) (hValue : clause.value = .array wanted)
      (hField : fields.field? clause.property = some (.array items))
      (hThere : ∃ item ∈ wanted, Value.isIn items item.toValue = true)
      (hMissing : ∃ item ∈ wanted, Value.isIn items item.toValue = false)

/-- What the local evaluation keeps and the store drops. -/
inductive OnlyLocalKeeps (clause : Clause) (fields : Fields) : Prop where
  /-- Nothing is in what is no list. -/
  | noList {actual : Value} (hOperator : clause.operator = .notIn)
      (hValue : ∀ options, clause.value ≠ .array options)
      (hField : fields.field? clause.property = some actual)
      (hLeaf : ¬ fields.HoldsFields clause.property)
  /-- All of no wanted items are there. -/
  | noneWanted {items : List Value} (hOperator : clause.operator = .arrayContainsAny)
      (hValue : clause.value = .array [])
      (hField : fields.field? clause.property = some (.array items))

end Clause

theorem Literal.toValues_eq (items : List Literal) :
    Literal.toValues items = items.map Literal.toValue := by
  induction items with
  | nil => rfl
  | cons item items ih => rw [Literal.toValues, ih, List.map_cons]

/-- A constant is never an object. -/
theorem Value.equal_literal_object (literal : Literal) (fields : Fields) :
    literal.toValue.equal (.object fields) = false ∧
      (Value.object fields).equal literal.toValue = false := by
  cases literal with
  | float x => cases x <;> exact ⟨rfl, rfl⟩
  | _ => exact ⟨rfl, rfl⟩

theorem Value.isIn_literals_object (options : List Literal) (fields : Fields) :
    Value.isIn (Literal.toValues options) (.object fields) = false := by
  rw [Literal.toValues_eq, Value.isIn, List.any_map, List.any_eq_false]
  intro literal _
  simp [(equal_literal_object literal fields).1]

theorem Literal.items?_toValue_of_ne {literal : Literal}
    (h : ∀ items, literal ≠ .array items) : literal.toValue.items? = none := by
  cases literal with
  | array items => exact absurd rfl (h items)
  | float x => cases x <;> rfl
  | _ => rfl

section Verdicts

variable {clause : Clause} {operator : RemoteOperator} {actual : Value}

/-- The filter that a clause is for the store, if the store knows the
operator. -/
def Clause.filter (clause : Clause) (operator : RemoteOperator) : Filter :=
  ⟨clause.property, operator, clause.value.toValue⟩

/-- A clause with an operator of the store is turned into a filter. -/
theorem Clause.filterOf_eq (h : clause.operator.remote? = some operator) :
    Plan.filterOf clause = .ok (clause.filter operator) := by
  rw [Plan.filterOf, h]
  rfl

/-- On a value that both find, the store and the local evaluation agree unless
they are asked for one or all of some items, or for what is not in a constant
other than a list. -/
theorem Clause.passes_eq_accepts (h : clause.operator.remote? = some operator)
    (hAny : clause.operator ≠ .arrayContainsAny)
    (hList : clause.operator = .notIn → ∃ options, clause.value = .array options) :
    (clause.filter operator).passes actual = clause.accepts actual := by
  cases hOperator : clause.operator with
  | like =>
      rw [hOperator] at h
      cases h
  | arrayContainsAny => exact absurd hOperator hAny
  | notIn =>
      obtain ⟨options, hValue⟩ := hList hOperator
      rw [hOperator] at h
      obtain rfl := Option.some.inj h
      simp only [Clause.filter, Clause.accepts, hOperator, hValue]
      rfl
  | _ =>
      rw [hOperator] at h
      obtain rfl := Option.some.inj h
      simp only [Clause.accepts, hOperator]
      rfl

/-- The store finds an object with fields different from every constant and in
no list of them. -/
theorem Clause.passes_object_iff (h : clause.operator.remote? = some operator) (inner : Fields) :
    (clause.filter operator).passes (.object inner) = true ↔ clause.operator = .notEqual ∨
      clause.operator = .notIn ∧ ∃ options, clause.value = .array options := by
  have hEqual := (Value.equal_literal_object clause.value inner).2
  have hOrder : (Value.object inner).orderInType? clause.value.toValue = none := by
    cases clause.value <;> rfl
  have hNoItems : (Value.object inner).items? = none := rfl
  by_cases hArray : ∃ options, clause.value = .array options
  · obtain ⟨options, hValue⟩ := id hArray
    have hItems : clause.value.toValue.items? = some (Literal.toValues options) := by
      rw [hValue]
      rfl
    have hOutside := Value.isIn_literals_object options inner
    cases hOperator : clause.operator <;> rw [hOperator] at h <;> cases h <;>
      simp [Clause.filter, Filter.passes, hEqual, hOrder, hItems, hNoItems, hOutside, hArray]
  · have hItems := Literal.items?_toValue_of_ne (not_exists.mp hArray)
    cases hOperator : clause.operator <;> rw [hOperator] at h <;> cases h <;>
      simp [Clause.filter, Filter.passes, hEqual, hOrder, hItems, hNoItems, hArray]

/-- Of the wanted items the store asks for some, the local evaluation for
all. -/
theorem Clause.wanted_verdicts (hOperator : clause.operator = .arrayContainsAny)
    (h : clause.operator.remote? = some operator) {wanted : List Literal}
    (hValue : clause.value = .array wanted) (items : List Value) :
    (clause.filter operator).passes (.array items) =
        wanted.any (fun item => Value.isIn items item.toValue) ∧
      clause.accepts (.array items) = wanted.all fun item => Value.isIn items item.toValue := by
  rw [hOperator] at h
  obtain rfl := Option.some.inj h
  have hItems : clause.value.toValue.items? = some (wanted.map Literal.toValue) := by
    rw [hValue, ← Literal.toValues_eq]
    rfl
  have hThere : (Value.array items).items? = some items := rfl
  constructor
  · simp [Clause.filter, Filter.passes, hItems, hThere, Function.comp_def]
  · simp [Clause.accepts, hOperator, hItems, hThere, Function.comp_def]

/-- Without a list, `not in` keeps nothing in the store and everything here. -/
theorem Clause.noList_verdicts (hOperator : clause.operator = .notIn)
    (h : clause.operator.remote? = some operator)
    (hValue : ∀ options, clause.value ≠ .array options) :
    (clause.filter operator).passes actual = false ∧ clause.accepts actual = true := by
  rw [hOperator] at h
  obtain rfl := Option.some.inj h
  have hItems := Literal.items?_toValue_of_ne hValue
  simp [Clause.filter, Filter.passes, Clause.accepts, hOperator, hItems]

/-- Without two arrays no item is wanted of any. -/
theorem Clause.unwanted_verdicts (hOperator : clause.operator = .arrayContainsAny)
    (h : clause.operator.remote? = some operator)
    (hNone : (∀ wanted, clause.value ≠ .array wanted) ∨ ∀ items, actual ≠ .array items) :
    (clause.filter operator).passes actual = false ∧ clause.accepts actual = false := by
  rw [hOperator] at h
  obtain rfl := Option.some.inj h
  have hItems : clause.value.toValue.items? = none ∨ actual.items? = none := by
    refine hNone.imp Literal.items?_toValue_of_ne fun hActual => ?_
    cases actual with
    | array items => exact absurd rfl (hActual items)
    | _ => rfl
  rcases hItems with hItems | hItems
  · simp [Clause.filter, Filter.passes, Clause.accepts, hOperator, hItems]
  · simp [Clause.filter, Filter.passes, Clause.accepts, hOperator, hItems]

/-- How the verdicts on a value that both find are related. -/
inductive Clause.Verdicts (clause : Clause) (filter : Filter) (actual : Value) : Prop where
  | agree (hSame : filter.passes actual = clause.accepts actual)
  | noList (hOperator : clause.operator = .notIn)
      (hValue : ∀ options, clause.value ≠ .array options)
      (hStore : filter.passes actual = false)
  | wanted {wanted : List Literal} {items : List Value}
      (hOperator : clause.operator = .arrayContainsAny) (hValue : clause.value = .array wanted)
      (hActual : actual = .array items)
      (hStore : filter.passes actual = wanted.any fun item => Value.isIn items item.toValue)
      (hLocal : clause.accepts actual = wanted.all fun item => Value.isIn items item.toValue)

/-- Store and engine agree on every value, up to the cases that are named. -/
theorem Clause.verdicts (h : clause.operator.remote? = some operator) (actual : Value) :
    clause.Verdicts (clause.filter operator) actual := by
  by_cases hAny : clause.operator = .arrayContainsAny
  · by_cases hValue : ∃ wanted, clause.value = .array wanted
    · obtain ⟨wanted, hValue⟩ := hValue
      by_cases hActual : ∃ items, actual = .array items
      · obtain ⟨items, rfl⟩ := hActual
        obtain ⟨hStore, hLocal⟩ := wanted_verdicts hAny h hValue items
        exact .wanted hAny hValue rfl hStore hLocal
      · obtain ⟨hStore, hLocal⟩ := unwanted_verdicts hAny h (Or.inr (not_exists.mp hActual))
        exact .agree (hStore.trans hLocal.symm)
    · obtain ⟨hStore, hLocal⟩ :=
        @unwanted_verdicts _ _ actual hAny h (Or.inl (not_exists.mp hValue))
      exact .agree (hStore.trans hLocal.symm)
  · by_cases hList : clause.operator = .notIn → ∃ options, clause.value = .array options
    · exact .agree (passes_eq_accepts h hAny hList)
    · obtain ⟨hOperator, hValue⟩ := Classical.not_imp.mp hList
      exact .noList hOperator (not_exists.mp hValue)
        (noList_verdicts hOperator h (not_exists.mp hValue)).1

end Verdicts

section Documents

variable {clause : Clause} {operator : RemoteOperator} {fields : Fields} {actual : Value}
  (h : clause.operator.remote? = some operator)

theorem Clause.holds_filter (hField : fields.field? clause.property = some actual) :
    (clause.filter operator).holds fields = (clause.filter operator).passes actual := by
  rw [Filter.holds, show (clause.filter operator).field = clause.property from rfl, hField]

/-- A filter holds of no document without its field. -/
theorem Clause.holds_filter_of_none (hField : fields.field? clause.property = none) :
    (clause.filter operator).holds fields = false := by
  rw [Filter.holds, show (clause.filter operator).field = clause.property from rfl, hField]

/-- What is no leaf has fields. -/
theorem Fields.holdsFields_iff {property : String} (hField : fields.field? property = some actual) :
    fields.HoldsFields property ↔ actual.isLeaf = false := by
  rw [HoldsFields, hField, Value.isLeaf_eq_false_iff]
  simp only [Option.some.injEq]

variable (hDistinct : (Value.object fields).KeysDistinct)
  (hPlain : (Value.object fields).NamesPlain)
include hDistinct hPlain

/-- A leaf is found under its dotted path, where the clause reads it. -/
theorem Clause.holds_flatten_of_isLeaf (hField : fields.field? clause.property = some actual)
    (hLeaf : actual.isLeaf = true) : clause.holds fields.flatten = clause.accepts actual := by
  rw [Clause.holds, (Fields.get?_flatten_eq_some_iff hDistinct hPlain).mpr ⟨hField, hLeaf⟩]

/-- A property that is missing or holds an object with fields is not found after
flattening. -/
theorem Clause.holds_flatten_of_not_isLeaf
    (hField : ∀ actual ∈ fields.field? clause.property, actual.isLeaf = false) :
    clause.holds fields.flatten = false := by
  cases hGet : fields.flatten.get? clause.property with
  | none => rw [Clause.holds, hGet]
  | some leaf =>
      obtain ⟨hFound, hLeaf⟩ := (Fields.get?_flatten_eq_some_iff hDistinct hPlain).mp hGet
      rw [hField leaf hFound] at hLeaf
      cases hLeaf

/-- An object with fields has no dotted path of its own, so the clause reads
nothing. -/
theorem Clause.holds_flatten_of_holdsFields (hField : fields.HoldsFields clause.property) :
    clause.holds fields.flatten = false := by
  obtain ⟨inner, hFound, hInner⟩ := hField
  refine holds_flatten_of_not_isLeaf hDistinct hPlain fun actual hActual => ?_
  rw [← Option.some.inj (hFound.symm.trans hActual)]
  exact Value.isLeaf_eq_false_iff.mpr ⟨inner, rfl, hInner⟩

include h

/-- Exactly which documents the store keeps and the engine does not. -/
theorem Clause.onlyStoreKeeps_iff :
    (clause.filter operator).holds fields = true ∧ clause.holds fields.flatten = false ↔
      clause.OnlyStoreKeeps fields := by
  constructor
  · rintro ⟨hStore, hLocal⟩
    cases hField : fields.field? clause.property with
    | none =>
        rw [holds_filter_of_none hField] at hStore
        cases hStore
    | some actual =>
        rw [holds_filter hField] at hStore
        cases hLeaf : actual.isLeaf with
        | false =>
            have hHolds := (Fields.holdsFields_iff hField).mpr hLeaf
            obtain ⟨inner, rfl, _⟩ := Value.isLeaf_eq_false_iff.mp hLeaf
            rcases (passes_object_iff h inner).mp hStore with hOperator | ⟨hOperator, _, hValue⟩
            · exact .different hOperator hHolds
            · exact .outside hOperator hValue hHolds
        | true =>
            rw [holds_flatten_of_isLeaf hDistinct hPlain hField hLeaf] at hLocal
            cases verdicts h actual with
            | agree hSame =>
                rw [hSame, hLocal] at hStore
                cases hStore
            | noList _ _ hNot =>
                rw [hNot] at hStore
                cases hStore
            | wanted hOperator hValue hActual hSome hAll =>
                rw [hSome] at hStore
                rw [hAll] at hLocal
                exact .someWanted hOperator hValue (hActual ▸ hField) (List.any_eq_true.mp hStore)
                  (by simpa using hLocal)
  · have hObject (hField : fields.HoldsFields clause.property)
        (hOperator : clause.operator = .notEqual ∨
          clause.operator = .notIn ∧ ∃ options, clause.value = .array options) :
        (clause.filter operator).holds fields = true ∧ clause.holds fields.flatten = false := by
      refine ⟨?_, holds_flatten_of_holdsFields hDistinct hPlain hField⟩
      obtain ⟨inner, hFound, _⟩ := hField
      rw [holds_filter hFound]
      exact (passes_object_iff h inner).mpr hOperator
    intro hKind
    cases hKind with
    | different hOperator hField => exact hObject hField (Or.inl hOperator)
    | outside hOperator hValue hField => exact hObject hField (Or.inr ⟨hOperator, _, hValue⟩)
    | someWanted hOperator hValue hField hThere hMissing =>
        obtain ⟨hStore, hLocal⟩ := wanted_verdicts hOperator h hValue _
        rw [holds_filter hField, holds_flatten_of_isLeaf hDistinct hPlain hField rfl]
        exact ⟨hStore.trans (List.any_eq_true.mpr hThere),
          hLocal.trans (by simpa using hMissing)⟩

/-- Exactly which documents the engine keeps and the store does not. -/
theorem Clause.onlyLocalKeeps_iff :
    (clause.filter operator).holds fields = false ∧ clause.holds fields.flatten = true ↔
      clause.OnlyLocalKeeps fields := by
  constructor
  · rintro ⟨hStore, hLocal⟩
    cases hField : fields.field? clause.property with
    | none =>
        rw [holds_flatten_of_not_isLeaf hDistinct hPlain (by simp [hField])] at hLocal
        cases hLocal
    | some actual =>
        rw [holds_filter hField] at hStore
        have hHolds := Fields.holdsFields_iff hField
        cases hLeaf : actual.isLeaf with
        | false =>
            rw [holds_flatten_of_holdsFields hDistinct hPlain (hHolds.mpr hLeaf)] at hLocal
            cases hLocal
        | true =>
            rw [holds_flatten_of_isLeaf hDistinct hPlain hField hLeaf] at hLocal
            cases verdicts h actual with
            | agree hSame =>
                rw [hSame, hLocal] at hStore
                cases hStore
            | noList hOperator hValue _ =>
                exact .noList hOperator hValue hField (by simp [hHolds, hLeaf])
            | wanted hOperator hValue hActual hSome hAll =>
                rename_i wanted items
                rw [hSome] at hStore
                rw [hAll] at hLocal
                have hNoneWanted : wanted = [] := by
                  cases wanted with
                  | nil => rfl
                  | cons first more => simp_all
                subst hNoneWanted
                exact .noneWanted hOperator hValue (hActual ▸ hField)
  · intro hKind
    cases hKind with
    | noList hOperator hValue hField hLeaf =>
        rw [Fields.holdsFields_iff hField, Bool.not_eq_false] at hLeaf
        rw [holds_filter hField, holds_flatten_of_isLeaf hDistinct hPlain hField hLeaf]
        exact noList_verdicts hOperator h hValue
    | noneWanted hOperator hValue hField =>
        rw [holds_filter hField, holds_flatten_of_isLeaf hDistinct hPlain hField rfl]
        exact wanted_verdicts hOperator h hValue _

end Documents

/-- A clause that the store can evaluate is a filter for it, and the filter and
the local evaluation keep the same documents but for the known kinds: those that
only the store keeps and those that are only kept locally. -/
theorem Clause.verdicts_differ_exactly {fields : Fields}
    (hDistinct : (Value.object fields).KeysDistinct) (hPlain : (Value.object fields).NamesPlain)
    {clause : Clause} (hOperator : clause.operator ≠ .like) :
    ∃ filter, Plan.filterOf clause = .ok filter ∧
      (filter.holds fields = true ∧ clause.holds fields.flatten = false ↔
        clause.OnlyStoreKeeps fields) ∧
      (filter.holds fields = false ∧ clause.holds fields.flatten = true ↔
        clause.OnlyLocalKeeps fields) := by
  obtain ⟨operator, h⟩ : ∃ operator, clause.operator.remote? = some operator := by
    cases hCase : clause.operator with
    | like => exact absurd hCase hOperator
    | _ => exact ⟨_, rfl⟩
  exact ⟨clause.filter operator, filterOf_eq h, onlyStoreKeeps_iff h hDistinct hPlain,
    onlyLocalKeeps_iff h hDistinct hPlain⟩

/-- Tags one level down. -/
def Fields.nestedTags : Fields :=
  [("id", .null), ("post", .object [("tags", .array [.string "new", .string "old"])])]

/-- A list in a field of a field: one clause is kept by the store alone, another
one by the engine alone. -/
theorem Clause.verdicts_differ_exactly_nestedTags :
    ((Value.object Fields.nestedTags).KeysDistinct ∧
      (Value.object Fields.nestedTags).NamesPlain) ∧
    (∃ filter, Plan.filterOf ⟨"post.tags", .arrayContainsAny,
        .array [.string "new", .string "red"], true⟩ = .ok filter ∧
      filter.holds Fields.nestedTags = true ∧
      Clause.holds ⟨"post.tags", .arrayContainsAny, .array [.string "new", .string "red"], true⟩
        Fields.nestedTags.flatten = false) ∧
    ∃ filter, Plan.filterOf ⟨"post.tags", .notIn, .string "new", true⟩ = .ok filter ∧
      filter.holds Fields.nestedTags = false ∧
      Clause.holds ⟨"post.tags", .notIn, .string "new", true⟩ Fields.nestedTags.flatten = true := by
  have hDistinct : (Value.object Fields.nestedTags).KeysDistinct := by
    simp [Fields.nestedTags, Value.KeysDistinct, Value.FieldsDistinct, Value.ItemsDistinct,
      Fields.keys]
  have hPlain : (Value.object Fields.nestedTags).NamesPlain := by
    simp [Fields.nestedTags, Value.NamesPlain, Value.FieldsPlain, IsPlainName]
  have hField : Fields.nestedTags.field? "post.tags" =
      some (.array [.string "new", .string "old"]) := by
    rfl
  refine ⟨⟨hDistinct, hPlain⟩, ?_, ?_⟩
  · obtain ⟨filter, hFilter, hStore, _⟩ := @verdicts_differ_exactly _ hDistinct hPlain
      ⟨"post.tags", .arrayContainsAny, .array [.string "new", .string "red"], true⟩ (by decide)
    refine ⟨filter, hFilter, hStore.mpr (.someWanted rfl rfl hField ?_ ?_)⟩
    · exact ⟨.string "new", by simp, rfl⟩
    · exact ⟨.string "red", by simp, rfl⟩
  · obtain ⟨filter, hFilter, _, hLocal⟩ := @verdicts_differ_exactly _ hDistinct hPlain
      ⟨"post.tags", .notIn, .string "new", true⟩ (by decide)
    refine ⟨filter, hFilter, hLocal.mpr (.noList rfl (by simp) hField ?_)⟩
    rw [Fields.holdsFields_iff hField]
    decide

end DocQuery
