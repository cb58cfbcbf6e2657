import DocQuery.Document.Field
import DocQuery.Proofs.Value.Fields
import Mathlib.Data.List.Nodup

/-! The leaves of a document and the names that lead to them. Flattening
lists the leaves under dotted keys. Where names are distinct, and neither
empty nor with a point inside, a dotted key leads back to its leaf, so a
flattened document and the nested one answer a look-up alike but for objects
with fields. -/
namespace DocQuery

/-- A name that can be told as one segment of a dotted path. -/
def IsPlainName (name : String) : Prop :=
  name ≠ "" ∧ '.' ∉ name.toList

namespace Value

/-- Whether flattening keeps a value whole: whether it is no object with
fields. -/
def isLeaf : Value → Bool
  | .object fields => fields.isEmpty
  | .null => true
  | .bool _ => true
  | .number _ => true
  | .string _ => true
  | .array _ => true

mutual

/-- Every name of an object inside objects is plain. Names inside arrays do not
count, since arrays are never taken apart. -/
def NamesPlain : Value → Prop
  | .object fields => FieldsPlain fields
  | .null => True
  | .bool _ => True
  | .number _ => True
  | .string _ => True
  | .array _ => True

/-- The names of fields and those inside their values are plain. -/
def FieldsPlain : List (String × Value) → Prop
  | [] => True
  | (name, value) :: rest => IsPlainName name ∧ value.NamesPlain ∧ FieldsPlain rest

end

mutual

/-- The leaves of a value in order, each with the names that lead to it. -/
def leaves : Value → List (List String × Value)
  | .object fields => if fields.isEmpty then [([], .object fields)] else fieldLeaves fields
  | .null => [([], .null)]
  | .bool b => [([], .bool b)]
  | .number n => [([], .number n)]
  | .string s => [([], .string s)]
  | .array items => [([], .array items)]

def fieldLeaves : List (String × Value) → List (List String × Value)
  | [] => []
  | (name, value) :: rest =>
      (value.leaves.map fun leaf => (name :: leaf.1, leaf.2)) ++ fieldLeaves rest

end

/-- A leaf has no other leaf than itself. -/
theorem leaves_of_isLeaf {value : Value} (h : value.isLeaf = true) :
    value.leaves = [([], value)] := by
  cases value with
  | object fields =>
      rw [isLeaf] at h
      rw [leaves, if_pos h]
  | _ => rfl

theorem leaves_object {fields : Fields} (h : (Value.object fields).isLeaf = false) :
    (Value.object fields).leaves = fieldLeaves fields := by
  rw [isLeaf] at h
  rw [leaves, h]
  rfl

/-- Only an object with fields is no leaf. -/
theorem isLeaf_eq_false_iff {value : Value} :
    value.isLeaf = false ↔ ∃ fields, value = .object fields ∧ fields ≠ [] := by
  cases value with
  | object fields => simp [isLeaf]
  | _ => simp [isLeaf]

/-- No path goes on from a leaf. -/
theorem follow_cons_of_isLeaf {value : Value} (h : value.isLeaf = true) (name : String)
    (names : List String) : value.follow (name :: names) = none := by
  cases value with
  | object fields =>
      obtain rfl : fields = [] := List.isEmpty_iff.mp h
      rfl
  | _ => rfl

/-- At least one name leads from fields to a leaf. -/
theorem exists_cons_of_mem_fieldLeaves {fields : Fields} {names : List String} {leaf : Value}
    (h : (names, leaf) ∈ fieldLeaves fields) :
    ∃ name rest, names = name :: rest ∧ name ∈ fields.keys := by
  induction fields with
  | nil => simp [fieldLeaves] at h
  | cons entry fields ih =>
      obtain ⟨first, value⟩ := entry
      obtain hHere | hThere := List.mem_append.mp h
      · obtain ⟨below, _, hLeaf⟩ := List.mem_map.mp hHere
        obtain ⟨rfl, _⟩ := Prod.mk.inj hLeaf
        exact ⟨first, below.1, rfl, List.mem_cons_self⟩
      · obtain ⟨name, rest, hNames, hName⟩ := ih hThere
        exact ⟨name, rest, hNames, List.mem_cons_of_mem _ hName⟩

mutual

/-- The names before a leaf are those by which it is found. -/
theorem mem_leaves_iff {value : Value} (h : value.KeysDistinct) (names : List String)
    (leaf : Value) :
    (names, leaf) ∈ value.leaves ↔ value.follow names = some leaf ∧ leaf.isLeaf = true := by
  cases hLeaf : value.isLeaf with
  | true =>
      rw [leaves_of_isLeaf hLeaf]
      cases names with
      | nil =>
          simp only [List.mem_singleton, Prod.mk.injEq, true_and, follow, Option.some.injEq]
          exact ⟨fun hSame => ⟨hSame.symm, hSame ▸ hLeaf⟩, fun hSame => hSame.1.symm⟩
      | cons name names => simp [follow_cons_of_isLeaf hLeaf]
  | false =>
      cases value with
      | object fields =>
          obtain ⟨hNames, hFields⟩ := h
          rw [leaves_object hLeaf]
          cases names with
          | nil =>
              refine ⟨fun hMem => ?_, fun ⟨hFound, hWhole⟩ => ?_⟩
              · obtain ⟨name, rest, hCons, _⟩ := exists_cons_of_mem_fieldLeaves hMem
                cases hCons
              · rw [← Option.some.inj hFound, hLeaf] at hWhole
                cases hWhole
          | cons name names => exact mem_fieldLeaves_iff hNames hFields name names leaf
      | _ => cases hLeaf

/-- The leaves of fields are what the paths lead to that end at a leaf. -/
theorem mem_fieldLeaves_iff {fields : Fields} (hNames : fields.keys.Nodup)
    (h : FieldsDistinct fields) (name : String) (names : List String) (leaf : Value) :
    (name :: names, leaf) ∈ fieldLeaves fields ↔
      (fields.get? name).bind (follow names) = some leaf ∧ leaf.isLeaf = true := by
  cases fields with
  | nil => simp [fieldLeaves]
  | cons entry fields =>
      obtain ⟨first, value⟩ := entry
      obtain ⟨hFirst, hRest⟩ := List.nodup_cons.mp hNames
      have hHere : (name :: names, leaf) ∈
          value.leaves.map (fun below => (first :: below.1, below.2)) ↔
            name = first ∧ (names, leaf) ∈ value.leaves := by
        simp only [List.mem_map, Prod.mk.injEq, List.cons.injEq]
        constructor
        · rintro ⟨below, hBelow, ⟨rfl, rfl⟩, rfl⟩
          exact ⟨rfl, hBelow⟩
        · rintro ⟨rfl, hBelow⟩
          exact ⟨_, hBelow, ⟨rfl, rfl⟩, rfl⟩
      rw [fieldLeaves, List.mem_append, hHere, mem_leaves_iff h.1,
        mem_fieldLeaves_iff hRest h.2, Fields.get?_cons]
      by_cases hName : name = first
      · subst hName
        have hNone : Fields.get? fields name = none := by
          cases hGet : Fields.get? fields name with
          | none => rfl
          | some other =>
              exact absurd (List.mem_map_of_mem (f := Prod.fst) (Fields.mem_of_get? hGet)) hFirst
        simp [hNone]
      · simp [hName]

end

mutual

/-- No two leaves are behind the same names. -/
theorem nodup_leaves {value : Value} (h : value.KeysDistinct) :
    (value.leaves.map Prod.fst).Nodup := by
  cases hLeaf : value.isLeaf with
  | true => simp [leaves_of_isLeaf hLeaf]
  | false =>
      cases value with
      | object fields =>
          rw [leaves_object hLeaf]
          exact nodup_fieldLeaves h.1 h.2
      | _ => cases hLeaf

/-- Each leaf has a path of its own. -/
theorem nodup_fieldLeaves {fields : Fields} (hNames : fields.keys.Nodup)
    (h : FieldsDistinct fields) : ((fieldLeaves fields).map Prod.fst).Nodup := by
  cases fields with
  | nil => simp [fieldLeaves]
  | cons entry fields =>
      obtain ⟨first, value⟩ := entry
      obtain ⟨hFirst, hRest⟩ := List.nodup_cons.mp hNames
      have hHere : (value.leaves.map fun below => first :: below.1).Nodup := by
        have hBelow := List.Nodup.map (List.cons_injective (a := first)) (nodup_leaves h.1)
        rwa [List.map_map] at hBelow
      rw [fieldLeaves, List.map_append, List.map_map, List.nodup_append]
      refine ⟨hHere, nodup_fieldLeaves hRest h.2, fun names hNamed others hOther hSame => ?_⟩
      obtain ⟨below, _, hBelow⟩ := List.mem_map.mp hNamed
      obtain ⟨leaf, hLeaf, rfl⟩ := List.mem_map.mp hOther
      obtain ⟨name, rest, hCons, hName⟩ := exists_cons_of_mem_fieldLeaves hLeaf
      rw [← hBelow, hCons] at hSame
      exact hFirst ((List.cons.inj hSame).1 ▸ hName)

end

mutual

/-- Only plain names lead to the leaves of a value that has no others. -/
theorem isPlainName_of_mem_leaves {value : Value} (h : value.NamesPlain) {names : List String}
    {leaf : Value} (hMem : (names, leaf) ∈ value.leaves) : ∀ name ∈ names, IsPlainName name := by
  cases hLeaf : value.isLeaf with
  | true =>
      rw [leaves_of_isLeaf hLeaf] at hMem
      obtain ⟨rfl, _⟩ := Prod.mk.inj (List.mem_singleton.mp hMem)
      exact nofun
  | false =>
      cases value with
      | object fields =>
          rw [leaves_object hLeaf] at hMem
          exact isPlainName_of_mem_fieldLeaves h hMem
      | _ => cases hLeaf

/-- Every name on the way to a leaf is plain. -/
theorem isPlainName_of_mem_fieldLeaves {fields : Fields} (h : FieldsPlain fields)
    {names : List String} {leaf : Value} (hMem : (names, leaf) ∈ fieldLeaves fields) :
    ∀ name ∈ names, IsPlainName name := by
  cases fields with
  | nil => simp [fieldLeaves] at hMem
  | cons entry fields =>
      obtain ⟨hFirst, hValue, hFields⟩ := h
      obtain hHere | hThere := List.mem_append.mp hMem
      · obtain ⟨below, hBelow, hLeaf⟩ := List.mem_map.mp hHere
        obtain ⟨rfl, _⟩ := Prod.mk.inj hLeaf
        exact List.forall_mem_cons.mpr ⟨hFirst, isPlainName_of_mem_leaves hValue hBelow⟩
      · exact isPlainName_of_mem_fieldLeaves hFields hThere

end

end Value

namespace Fields

mutual

/-- Flattening a value sets the dotted key of each leaf in turn. -/
theorem flattenValue_eq (flat : Fields) (key : String) (value : Value) :
    flattenValue flat key value = value.leaves.foldl
      (fun flat leaf => flat.set (leaf.1.foldl dotted key) leaf.2) flat := by
  cases value with
  | object fields =>
      rw [flattenValue, Value.leaves]
      cases fields.isEmpty with
      | true => rfl
      | false => exact flattenFields_eq flat key fields
  | _ => rfl

/-- Flattening sets the leaves one by one, each under the names on its way. -/
theorem flattenFields_eq (flat : Fields) (path : String) (fields : List (String × Value)) :
    flattenFields flat path fields = (Value.fieldLeaves fields).foldl
      (fun flat leaf => flat.set (leaf.1.foldl dotted path) leaf.2) flat := by
  cases fields with
  | nil => rfl
  | cons entry fields =>
      obtain ⟨name, value⟩ := entry
      rw [flattenFields, Value.fieldLeaves, List.foldl_append, List.foldl_map,
        flattenFields_eq _ path fields, flattenValue_eq flat (dotted path name) value]
      rfl

end

/-- The leaves of fields under their dotted keys. -/
def dottedLeaves (fields : Fields) : List (String × Value) :=
  (Value.fieldLeaves fields).map fun leaf => (leaf.1.foldl dotted "", leaf.2)

theorem flatten_eq_ofList (fields : Fields) : fields.flatten = ofList fields.dottedLeaves := by
  rw [flatten, flattenFields_eq, ofList, dottedLeaves, List.foldl_map]

/-- Two names with a point between them are joined as one. -/
theorem join_dotted (path name : String) (names : List String) :
    Text.join '.' ((path ++ "." ++ name) :: names) = Text.join '.' (path :: name :: names) := by
  apply String.toList_inj.mp
  cases names with
  | nil => simp [Text.join]
  | cons next names => simp [Text.join, String.toList_intercalate, List.intercalate]

/-- Below a name all others are behind points. -/
theorem foldl_dotted {path : String} (h : path ≠ "") (names : List String) :
    names.foldl dotted path = Text.join '.' (path :: names) := by
  induction names generalizing path with
  | nil => simp [Text.join]
  | cons name names ih =>
      have hBelow : path ++ "." ++ name ≠ "" := by
        intro hEmpty
        simpa using congrArg String.toList hEmpty
      rw [List.foldl_cons, dotted, if_neg h, ih hBelow, join_dotted]

/-- A dotted key leads back to the plain names it was made of. -/
theorem fieldPath_foldl_dotted {names : List String} (hSome : names ≠ [])
    (h : ∀ name ∈ names, IsPlainName name) : fieldPath (names.foldl dotted "") = names := by
  obtain ⟨name, rest, rfl⟩ := List.exists_cons_of_ne_nil hSome
  rw [List.foldl_cons, dotted, if_pos rfl, foldl_dotted (h name List.mem_cons_self).1]
  exact Text.split_join hSome fun segment hSegment => (h segment hSegment).2

/-- A path of plain names is the dotted key of these names. -/
theorem foldl_dotted_fieldPath {path : String} (h : ∀ name ∈ fieldPath path, IsPlainName name) :
    (fieldPath path).foldl dotted "" = path := by
  obtain ⟨name, rest, hPath⟩ := List.exists_cons_of_ne_nil (fieldPath_ne_nil path)
  rw [hPath] at h
  rw [hPath, List.foldl_cons, dotted, if_pos rfl, foldl_dotted (h name List.mem_cons_self).1,
    ← hPath]
  exact Text.join_split '.' path

section Plain

variable {fields : Fields} (hDistinct : (Value.object fields).KeysDistinct)
  (hPlain : (Value.object fields).NamesPlain)
include hDistinct hPlain

/-- Plain names are told apart by their dotted paths, so no leaf replaces
another. -/
theorem nodup_dottedLeaves : (fields.dottedLeaves.map Prod.fst).Nodup := by
  have hPath : ∀ names ∈ (Value.fieldLeaves fields).map Prod.fst,
      fieldPath (names.foldl dotted "") = names := by
    intro names hNames
    obtain ⟨leaf, hLeaf, rfl⟩ := List.mem_map.mp hNames
    obtain ⟨name, rest, hCons, _⟩ := Value.exists_cons_of_mem_fieldLeaves hLeaf
    exact fieldPath_foldl_dotted (hCons ▸ List.cons_ne_nil name rest)
      (Value.isPlainName_of_mem_fieldLeaves hPlain hLeaf)
  have hApart : ∀ left ∈ (Value.fieldLeaves fields).map Prod.fst,
      ∀ right ∈ (Value.fieldLeaves fields).map Prod.fst,
      left.foldl dotted "" = right.foldl dotted "" → left = right := by
    intro left hLeft right hRight hSame
    rw [← hPath left hLeft, ← hPath right hRight, hSame]
  have hKeys := (Value.nodup_fieldLeaves hDistinct.1 hDistinct.2).map_on hApart
  rw [List.map_map] at hKeys
  rw [dottedLeaves, List.map_map]
  exact hKeys

/-- A flattened document is its leaves under their dotted keys, in order. -/
theorem flatten_eq_dottedLeaves : fields.flatten = fields.dottedLeaves := by
  rw [flatten_eq_ofList, ofList_eq_self (nodup_dottedLeaves hDistinct hPlain)]

/-- A flattened document knows the leaves at their paths and nothing else. -/
theorem get?_flatten_eq_some_iff {path : String} {leaf : Value} :
    fields.flatten.get? path = some leaf ↔ fields.field? path = some leaf ∧ leaf.isLeaf = true := by
  obtain ⟨first, rest, hPath⟩ := List.exists_cons_of_ne_nil (fieldPath_ne_nil path)
  have hField : fields.field? path = (fields.get? first).bind (Value.follow rest) := by
    rw [field?, hPath]
  rw [flatten_eq_dottedLeaves hDistinct hPlain,
    get?_eq_some_iff (nodup_dottedLeaves hDistinct hPlain), hField,
    ← Value.mem_fieldLeaves_iff hDistinct.1 hDistinct.2, ← hPath]
  constructor
  · intro hMem
    obtain ⟨found, hFound, hSame⟩ := List.mem_map.mp hMem
    obtain ⟨hKey, rfl⟩ := Prod.mk.inj hSame
    obtain ⟨name, others, hCons, _⟩ := Value.exists_cons_of_mem_fieldLeaves hFound
    rw [← hKey, fieldPath_foldl_dotted (hCons ▸ List.cons_ne_nil name others)
      (Value.isPlainName_of_mem_fieldLeaves hPlain hFound)]
    exact hFound
  · intro hMem
    refine List.mem_map.mpr ⟨(fieldPath path, leaf), hMem, ?_⟩
    rw [foldl_dotted_fieldPath (Value.isPlainName_of_mem_fieldLeaves hPlain hMem)]

end Plain

end Fields

end DocQuery
