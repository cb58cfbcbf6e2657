import DocQuery.Document.Field
import DocQuery.Document.Merge
import Mathlib.Data.List.Induction

/-! Reading a document at one path after a value was merged in at another. What
is read is the value itself at its own path, nothing below it, an object above
it, and what was there before at a path that neither leads to the other. -/
namespace DocQuery

/-- Neither of two lists of segments leads to the other. -/
def Apart (first second : List String) : Prop :=
  ¬ first <+: second ∧ ¬ second <+: first

instance (first second : List String) : Decidable (Apart first second) :=
  inferInstanceAs (Decidable (_ ∧ _))

/-- A first name in common does not matter to whether paths go apart. -/
theorem apart_cons_self {name : String} {first second : List String} :
    Apart (name :: first) (name :: second) ↔ Apart first second := by
  simp only [Apart, List.prefix_cons_inj]

/-- Neither of two dotted paths leads to the other. -/
def PathsApart (first second : String) : Prop :=
  Apart (fieldPath first) (fieldPath second)

instance (first second : String) : Decidable (PathsApart first second) :=
  inferInstanceAs (Decidable (Apart _ _))

/-- A path can be recovered from the names that it is split into. -/
theorem fieldPath_inj {first second : String} (h : fieldPath first = fieldPath second) :
    first = second := by
  rw [← Text.join_split '.' first, ← Text.join_split '.' second]
  exact congrArg (Text.join '.') h

namespace Fields

/-- The fields of a value that is there and is an object. -/
def ofValue? (value : Option Value) : Fields :=
  (value.bind Value.fields?).getD []

/-- A value without fields replaces what stood there. -/
theorem mergeValue_of_plain {value : Value} (h : value.fields? = none) (old : Option Value) :
    mergeValue old value = value := by
  cases value with
  | object fields => cases h
  | _ => rfl

theorem mergeValue_none (value : Value) : mergeValue none value = value := by
  cases value with
  | _ => rfl

/-- To merge in a value below a name is to merge it into the field of that
name. -/
theorem mergeValue_nest_cons (old : Option Value) (name : String) (rest : List String)
    (value : Value) :
    mergeValue old (nest (name :: rest) value) = .object ((ofValue? old).set name
      (mergeValue ((ofValue? old).get? name) (nest rest value))) := by
  have hFresh : mergeValue none (nest rest value) = nest rest value := mergeValue_none _
  cases old with
  | none => exact congrArg (fun inner => Value.object [(name, inner)]) hFresh.symm
  | some found =>
      cases found with
      | object fields => rfl
      | _ => exact congrArg (fun inner => Value.object [(name, inner)]) hFresh.symm

/-- A path into a value that is no object, or is missing, is a path into no
fields. -/
theorem bind_follow_cons (old : Option Value) (name : String) (rest : List String) :
    old.bind (Value.follow (name :: rest)) =
      ((ofValue? old).get? name).bind (Value.follow rest) := by
  cases old with
  | none => rfl
  | some found =>
      cases found with
      | object fields => rfl
      | _ => rfl

/-- A path is followed name by name. -/
theorem follow_append (first second : List String) (value : Value) :
    value.follow (first ++ second) = (value.follow first).bind (Value.follow second) := by
  induction first generalizing value with
  | nil => rfl
  | cons name rest ih =>
      cases value with
      | object fields =>
          rw [List.cons_append, Value.follow, Value.follow, Option.bind_assoc]
          exact congrArg _ (funext ih)
      | _ => rfl

section Nested

variable {path : List String} {value : Value}

/-- At its path a value is read as it is. -/
theorem follow_mergeValue_nest_self (h : value.fields? = none) (old : Option Value) :
    (mergeValue old (nest path value)).follow path = some value := by
  induction path generalizing old with
  | nil => rw [nest, mergeValue_of_plain h, Value.follow]
  | cons name rest ih =>
      rw [mergeValue_nest_cons, Value.follow, get?_set_self, Option.bind_some, ih]

/-- Below its path nothing is read. -/
theorem follow_mergeValue_nest_below (h : value.fields? = none) (old : Option Value) (name : String)
    (rest : List String) :
    (mergeValue old (nest path value)).follow (path ++ name :: rest) = none := by
  rw [follow_append, follow_mergeValue_nest_self h, Option.bind_some]
  cases value with
  | object fields => cases h
  | _ => rfl

/-- Above its path an object is read. -/
theorem follow_mergeValue_nest_above (old : Option Value) (name : String) (rest : List String) :
    ∃ fields, (mergeValue old (nest (path ++ name :: rest) value)).follow path =
      some (.object fields) := by
  induction path generalizing old with
  | nil => exact ⟨_, congrArg some (mergeValue_nest_cons old name rest value)⟩
  | cons first path ih =>
      rw [List.cons_append, mergeValue_nest_cons, Value.follow, get?_set_self, Option.bind_some]
      exact ih _

/-- At a path apart from its own what was there is read. -/
theorem follow_mergeValue_nest_of_apart {other : List String} (h : Apart path other)
    (old : Option Value) :
    (mergeValue old (nest path value)).follow other = old.bind (Value.follow other) := by
  induction path generalizing other old with
  | nil => exact absurd List.nil_prefix h.1
  | cons name rest ih =>
      cases other with
      | nil => exact absurd List.nil_prefix h.2
      | cons first others =>
          rw [mergeValue_nest_cons, Value.follow, bind_follow_cons]
          by_cases hName : first = name
          · subst hName
            rw [get?_set_self, Option.bind_some, ih (apart_cons_self.mp h)]
          · rw [get?_set_of_ne hName]

end Nested

/-- An expanded path merged into fields is a nested value merged into an
object. -/
theorem object_merge_expand (fields : Fields) (path : String) (value : Value) :
    Value.object (fields.merge (expand path value)) =
      mergeValue (some (.object fields)) (nest (fieldPath path) value) := by
  obtain ⟨name, rest, hPath⟩ := List.exists_cons_of_ne_nil (fieldPath_ne_nil path)
  rw [expand, hPath]
  rfl

/-- After merging one nested value, a path leads to what it leads to in the
merged value. -/
theorem field?_merge_expand (fields : Fields) (path other : String) (value : Value) :
    (fields.merge (expand path value)).field? other =
      (mergeValue (some (.object fields)) (nest (fieldPath path) value)).follow
        (fieldPath other) := by
  rw [field?_eq, object_merge_expand]
  rfl

variable {path other : String} {value merged : Value}

/-- A value without fields is found where it was merged in. -/
theorem field?_merge_expand_self (h : value.fields? = none) (fields : Fields) (path : String) :
    (fields.merge (expand path value)).field? path = some value := by
  rw [field?_merge_expand, follow_mergeValue_nest_self h]

/-- A path that goes apart leads to what it led to before. -/
theorem field?_merge_expand_of_apart (h : PathsApart path other) (fields : Fields) (value : Value) :
    (fields.merge (expand path value)).field? other = fields.field? other := by
  rw [field?_merge_expand, follow_mergeValue_nest_of_apart h, field?_eq]
  rfl

/-- A value that is there stays there if and only if what is merged in at
another path is apart from it. -/
theorem field?_merge_expand_eq_iff (hNe : path ≠ other) (hMerged : merged.fields? = none)
    (hValue : value.fields? = none) (fields : Fields) :
    (fields.merge (expand path merged)).field? other = some value ↔
      PathsApart path other ∧ fields.field? other = some value := by
  by_cases hApart : PathsApart path other
  · rw [field?_merge_expand_of_apart hApart]
    exact ⟨fun h => ⟨hApart, h⟩, fun h => h.2⟩
  · refine ⟨fun h => absurd h ?_, fun h => absurd h.1 hApart⟩
    rw [field?_merge_expand]
    rw [PathsApart, Apart, ← not_or, not_not] at hApart
    rcases hApart with ⟨below, hBelow⟩ | ⟨below, hBelow⟩
    · cases below with
      | nil => exact absurd (fieldPath_inj ((List.append_nil _).symm.trans hBelow)) hNe
      | cons name rest =>
          rw [← hBelow, follow_mergeValue_nest_below hMerged]
          exact nofun
    · cases below with
      | nil => exact absurd (fieldPath_inj ((List.append_nil _).symm.trans hBelow)) hNe.symm
      | cons name rest =>
          obtain ⟨inner, hInner⟩ := @follow_mergeValue_nest_above (fieldPath other) merged
            (some (.object fields)) name rest
          rw [← hBelow, hInner]
          intro hSame
          rw [← Option.some.inj hSame] at hValue
          cases hValue

/-- A value that is there stays there if and only if everything merged in after
it, at other paths, is apart from it. -/
theorem field?_foldl_merge_eq_iff {entries : List (String × Value)}
    (hNe : ∀ entry ∈ entries, entry.1 ≠ other)
    (hPlain : ∀ entry ∈ entries, entry.2.fields? = none) (hValue : value.fields? = none)
    (fields : Fields) :
    (entries.foldl
      (fun fields entry => fields.merge (expand entry.1 entry.2)) fields).field? other =
        some value ↔
      (∀ entry ∈ entries, PathsApart entry.1 other) ∧ fields.field? other = some value := by
  induction entries generalizing fields with
  | nil => simp
  | cons entry rest ih =>
      obtain ⟨hHere, hThere⟩ := List.forall_mem_cons.mp hNe
      obtain ⟨hMerged, hOthers⟩ := List.forall_mem_cons.mp hPlain
      rw [List.foldl_cons, ih hThere hOthers,
        field?_merge_expand_eq_iff hHere hMerged hValue, List.forall_mem_cons, and_left_comm,
        and_assoc]

end Fields

end DocQuery
