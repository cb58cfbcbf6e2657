import DocQuery.Proofs.Document.Associativity
import DocQuery.Proofs.Document.Flattening
import Mathlib.Data.Fintype.EquivFin

/-! Laws of merging. A patch merged in twice does no more than once, merged into
nothing it is itself, and wherever an object is left its old names come first,
in their order, and the new ones after them in the order of the patch. Which
object that is, is read off the two values at the same path. -/
namespace DocQuery

theorem Value.eq_object_of_fields? {value : Value} {fields : Fields}
    (h : value.fields? = some fields) : value = .object fields := by
  cases value with
  | object inner => exact congrArg Value.object (Option.some.inj h)
  | _ => cases h

/-- On the way to a path, or at it, there is a value that is no object. -/
def Value.PlainAlong (path : List String) (value : Value) : Prop :=
  ∃ front, front <+: path ∧ ∃ found, value.follow front = some found ∧ found.fields? = none

namespace Fields

variable {fields patch : Fields} {key : String} {value : Value}

theorem get?_merge_of_get? (hKeys : patch.keys.Nodup) (h : patch.get? key = some value)
    (fields : Fields) :
    (fields.merge patch).get? key = some (mergeValue (fields.get? key) value) := by
  induction patch generalizing fields with
  | nil => cases h
  | cons entry rest ih =>
      obtain ⟨name, first⟩ := entry
      obtain ⟨hNew, hRest⟩ := List.nodup_cons.mp hKeys
      rw [get?_cons] at h
      rw [merge_cons]
      split at h
      · rename_i hName
        obtain rfl := Option.some.inj h
        rw [hName, get?_merge_of_not_mem hNew, get?_set_self]
      · rename_i hName
        rw [ih hRest h, get?_set_of_ne hName]

/-- The old names keep their places, and the new ones come after them in the
order of the patch. -/
theorem keys_merge (hKeys : patch.keys.Nodup) (fields : Fields) :
    (fields.merge patch).keys = fields.keys ++ patch.keys.filter (· ∉ fields.keys) := by
  induction patch generalizing fields with
  | nil => rw [merge_nil]; exact (List.append_nil _).symm
  | cons entry rest ih =>
      obtain ⟨name, first⟩ := entry
      obtain ⟨hNew, hRest⟩ := List.nodup_cons.mp hKeys
      have hNames : keys ((name, first) :: rest) = name :: keys rest := rfl
      rw [merge_cons, ih hRest, keys_set, hNames]
      by_cases hOld : name ∈ fields.keys
      · rw [if_pos hOld, List.filter_cons_of_neg (by simpa using hOld)]
      · have hSame : (keys rest).filter (· ∉ fields.keys ++ [name]) =
            (keys rest).filter (· ∉ fields.keys) := by
          refine List.filter_congr fun other hOther => ?_
          have hNe : other ≠ name := fun hSame => hNew (hSame ▸ hOther)
          simp [hNe]
        rw [if_neg hOld, List.filter_cons_of_pos (by simpa using hOld), hSame, List.append_assoc,
          List.singleton_append]

/-- What is there already can be merged in without a change. -/
theorem merge_eq_self (h : ∀ entry ∈ patch, ∃ found, fields.get? entry.1 = some found ∧
    mergeValue (some found) entry.2 = found) : fields.merge patch = fields := by
  induction patch with
  | nil => rw [merge_nil]
  | cons entry rest ih =>
      obtain ⟨⟨found, hFound, hSame⟩, hRest⟩ := List.forall_mem_cons.mp h
      rw [merge_cons, hFound, hSame, set_eq_self hFound, ih hRest]

mutual

/-- A value merged in twice leaves what it leaves when it is merged in once. -/
theorem mergeValue_again (old : Option Value) {value : Value} (h : value.KeysDistinct) :
    mergeValue (some (mergeValue old value)) value = mergeValue old value := by
  cases value with
  | object patch =>
      rw [mergeValue_object h.1 old, mergeValue_object h.1]
      refine congrArg Value.object (merge_eq_self fun entry hEntry => ?_)
      exact ⟨_, get?_merge_of_get? h.1 (get?_of_mem h.1 hEntry) _, mergeField_again _ h.2 hEntry⟩
  | _ => rfl
termination_by structural value

/-- Merging a field of a patch for the second time changes nothing. -/
theorem mergeField_again (old : Option Value) {patch : Fields} (h : Value.FieldsDistinct patch)
    {entry : String × Value} (hEntry : entry ∈ patch) :
    mergeValue (some (mergeValue old entry.2)) entry.2 = mergeValue old entry.2 := by
  cases patch with
  | nil => cases hEntry
  | cons first rest =>
      obtain ⟨name, value⟩ := first
      rcases List.mem_cons.mp hEntry with rfl | hRest
      · exact mergeValue_again old h.1
      · exact mergeField_again old h.2 hRest
termination_by structural patch

end

theorem merge_again (h : (Value.object patch).KeysDistinct) (fields : Fields) :
    (fields.merge patch).merge patch = fields.merge patch :=
  Value.object.inj (mergeValue_again (some (.object fields)) h)

section Follow

variable {path : List String} {found : Value}

theorem keysDistinct_of_get? (h : (Value.object fields).KeysDistinct)
    (hFound : fields.get? key = some found) : found.KeysDistinct :=
  fieldsDistinct_iff.mp h.2 _ (mem_of_get? hFound)

/-- Where a merged value has something, it is merged into what was there. -/
theorem follow_mergeValue_of_some (h : value.KeysDistinct) (hFound : value.follow path = some found)
    (old : Option Value) : (mergeValue old value).follow path =
      some (mergeValue (old.bind (Value.follow path)) found) := by
  induction path generalizing value old with
  | nil =>
      obtain rfl := Option.some.inj hFound
      have hAll : old.bind (Value.follow []) = old := by cases old <;> rfl
      rw [hAll, Value.follow]
  | cons name rest ih =>
      cases value with
      | object patch =>
          obtain ⟨below, hBelow, hRest⟩ := Option.bind_eq_some_iff.mp hFound
          rw [mergeValue_object h.1, Value.follow, get?_merge_of_get? h.1 hBelow, Option.bind_some,
            ih (keysDistinct_of_get? h hBelow) hRest, bind_follow_cons]
      | _ => cases hFound

/-- Below a plain value that is merged in there is nothing. -/
theorem follow_mergeValue_of_plainAlong (h : value.KeysDistinct) (hNone : value.follow path = none)
    (hPlain : value.PlainAlong path) (old : Option Value) :
    (mergeValue old value).follow path = none := by
  obtain ⟨front, ⟨rest, rfl⟩, found, hFound, hFields⟩ := hPlain
  cases rest with
  | nil =>
      rw [List.append_nil, hFound] at hNone
      cases hNone
  | cons name rest =>
      rw [follow_append, follow_mergeValue_of_some h hFound, Option.bind_some,
        mergeValue_of_plain hFields]
      cases found with
      | object fields => cases hFields
      | _ => rfl

/-- Where a merged value has nothing and could have something, what was there
stays. -/
theorem follow_mergeValue_of_none (h : value.KeysDistinct) (hNone : value.follow path = none)
    (hPlain : ¬ value.PlainAlong path) (old : Option Value) :
    (mergeValue old value).follow path = old.bind (Value.follow path) := by
  induction path generalizing value old with
  | nil => cases hNone
  | cons name rest ih =>
      cases value with
      | object patch =>
          rw [mergeValue_object h.1, Value.follow, bind_follow_cons]
          cases hBelow : Fields.get? patch name with
          | none => rw [get?_merge_of_not_mem (get?_eq_none_iff.mp hBelow)]
          | some below =>
              rw [Value.follow, hBelow, Option.bind_some] at hNone
              rw [get?_merge_of_get? h.1 hBelow, Option.bind_some]
              refine ih (keysDistinct_of_get? h hBelow) hNone ?_ _
              rintro ⟨front, hFront, found, hFound, hFields⟩
              refine hPlain ⟨name :: front, (List.prefix_cons_inj name).mpr hFront, found, ?_,
                hFields⟩
              rw [Value.follow, hBelow, Option.bind_some, hFound]
      | _ => exact absurd ⟨[], List.nil_prefix, _, rfl, rfl⟩ hPlain

end Follow

/-- A nested value is found at the end of its path. -/
theorem follow_nest_self (path : List String) (value : Value) :
    (nest path value).follow path = some value := by
  induction path with
  | nil => rfl
  | cons name rest ih => rw [nest, Value.follow, get?_cons, if_pos rfl, Option.bind_some, ih]

end Fields

namespace Value

/-- The value has an object at a path. -/
def HasObject (path : List String) (value : Value) : Prop :=
  ∃ fields, value.follow path = some (.object fields)

/-- The names of the object at a path, or none if there is no object. -/
def namesAt (path : List String) (value : Value) : List String :=
  (Fields.ofValue? (value.follow path)).keys

end Value

namespace Fields

section Objects

variable {target patch : Fields} (h : (Value.object patch).KeysDistinct)
include h

/-- An object comes from the patch, or was there before and the patch has no
plain value for it. -/
theorem hasObject_merge_iff (path : List String) :
    (Value.object (target.merge patch)).HasObject path ↔ (Value.object patch).HasObject path ∨
      (Value.object target).HasObject path ∧ ¬ (Value.object patch).PlainAlong path := by
  have hMerged : Value.object (target.merge patch) =
      mergeValue (some (.object target)) (.object patch) := rfl
  rw [hMerged]
  cases hFound : (Value.object patch).follow path with
  | some found =>
      have hFollow := follow_mergeValue_of_some h hFound (some (.object target))
      cases hFields : found.fields? with
      | some fields =>
          obtain rfl := Value.eq_object_of_fields? hFields
          rw [mergeValue_object (Value.keysDistinct_of_follow h hFound).1] at hFollow
          exact iff_of_true ⟨_, hFollow⟩ (.inl ⟨fields, hFound⟩)
      | none =>
          have hPlain : (Value.object patch).PlainAlong path :=
            ⟨path, List.prefix_rfl, found, hFound, hFields⟩
          have hNo (value : Value) (hValue : value.follow path = some found) :
              ¬ value.HasObject path := by
            rintro ⟨inner, hInner⟩
            obtain rfl := Option.some.inj (hValue.symm.trans hInner)
            cases hFields
          rw [mergeValue_of_plain hFields] at hFollow
          exact iff_of_false (hNo _ hFollow) fun hEither =>
            hEither.elim (hNo _ hFound) fun hOld => hOld.2 hPlain
  | none =>
      have hNot : ¬ (Value.object patch).HasObject path := fun ⟨inner, hInner⟩ => by
        cases hFound.symm.trans hInner
      by_cases hPlain : (Value.object patch).PlainAlong path
      · have hFollow := follow_mergeValue_of_plainAlong h hFound hPlain (some (.object target))
        refine iff_of_false ?_ fun hEither => hEither.elim hNot fun hOld => hOld.2 hPlain
        rintro ⟨inner, hInner⟩
        cases hFollow.symm.trans hInner
      · have hFollow := follow_mergeValue_of_none h hFound hPlain (some (.object target))
        rw [Option.bind_some] at hFollow
        rw [Value.HasObject, hFollow]
        exact ⟨fun hOld => .inr ⟨hOld, hPlain⟩, fun hEither => (hEither.resolve_left hNot).1⟩

/-- At every depth the old names come first and then the new ones, in the order
of the patch. -/
theorem namesAt_merge {path : List String}
    (hObject : (Value.object (target.merge patch)).HasObject path) :
    (Value.object (target.merge patch)).namesAt path = (Value.object target).namesAt path ++
      ((Value.object patch).namesAt path).filter (· ∉ (Value.object target).namesAt path) := by
  have hMerged : Value.object (target.merge patch) =
      mergeValue (some (.object target)) (.object patch) := rfl
  rw [hMerged] at hObject ⊢
  obtain ⟨inner, hInner⟩ := hObject
  cases hFound : (Value.object patch).follow path with
  | some found =>
      have hFollow := follow_mergeValue_of_some h hFound (some (.object target))
      cases hFields : found.fields? with
      | some fields =>
          obtain rfl := Value.eq_object_of_fields? hFields
          have hKeys : fields.keys.Nodup := (Value.keysDistinct_of_follow h hFound).1
          rw [mergeValue_object hKeys, Option.bind_some] at hFollow
          rw [Value.namesAt, hFollow, Value.namesAt, Value.namesAt, hFound]
          exact keys_merge hKeys _
      | none =>
          rw [mergeValue_of_plain hFields] at hFollow
          obtain rfl := Option.some.inj (hFollow.symm.trans hInner)
          cases hFields
  | none =>
      have hPlain : ¬ (Value.object patch).PlainAlong path := fun hPlain => by
        have hFollow := follow_mergeValue_of_plainAlong h hFound hPlain (some (.object target))
        cases hFollow.symm.trans hInner
      have hFollow := follow_mergeValue_of_none h hFound hPlain (some (.object target))
      rw [Value.namesAt, hFollow, Value.namesAt, Value.namesAt, hFound]
      exact (List.append_nil _).symm

end Objects

theorem exists_not_mem_keys (fields : Fields) : ∃ key, key ∉ fields.keys := by
  have hMany : Function.Injective fun n => String.ofList (List.replicate n 'a') := by
    intro m n hSame
    simpa using congrArg List.length (String.ofList_inj.mp hSame)
  have hInfinite : Infinite String := Infinite.of_injective _ hMany
  obtain ⟨key, hKey⟩ := hInfinite.exists_notMem_finset fields.keys.toFinset
  exact ⟨key, by simpa using hKey⟩

/-- In place of a plain value there is the object itself. -/
theorem mergeValue_plain_object {found : Value} (hFound : found.fields? = none) {inner : Fields}
    (h : inner.keys.Nodup) : mergeValue (some found) (.object inner) = .object inner := by
  rw [mergeValue_object h]
  cases found with
  | object fields => cases hFound
  | _ => exact congrArg Value.object (merge_nil_left h)

/-- Patches one after the other: a plain value of the first one gives way to an
object. -/
theorem follow_merge_merge {target patch next inner : Fields} {found : Value} {path : List String}
    (hPatch : (Value.object patch).KeysDistinct) (hNext : (Value.object next).KeysDistinct)
    (hFound : (Value.object patch).follow path = some found) (hPlain : found.fields? = none)
    (hInner : (Value.object next).follow path = some (.object inner)) :
    (Value.object ((target.merge patch).merge next)).follow path = some (.object inner) := by
  have hKeys : (keys inner).Nodup := (Value.keysDistinct_of_follow hNext hInner).1
  have hFirst := follow_mergeValue_of_some hPatch hFound (some (.object target))
  have hThen := follow_mergeValue_of_some hNext hInner
    (some (mergeValue (some (.object target)) (.object patch)))
  rw [mergeValue_of_plain hPlain] at hFirst
  rw [Option.bind_some, hFirst, mergeValue_plain_object hPlain hKeys] at hThen
  exact hThen

/-- Patches put together: the object of the second one is merged into what was
there before both. -/
theorem follow_merge_together {target patch next inner : Fields} {found old : Value}
    {path : List String} (hPatch : (Value.object patch).KeysDistinct)
    (hNext : (Value.object next).KeysDistinct)
    (hFound : (Value.object patch).follow path = some found) (hPlain : found.fields? = none)
    (hInner : (Value.object next).follow path = some (.object inner))
    (hOld : (Value.object target).follow path = some old) :
    (Value.object (target.merge (patch.merge next))).follow path =
      some (mergeValue (some old) (.object inner)) := by
  have hKeys : (keys inner).Nodup := (Value.keysDistinct_of_follow hNext hInner).1
  have hBoth := follow_mergeValue_of_some hNext hInner (some (.object patch))
  rw [Option.bind_some, hFound, mergeValue_plain_object hPlain hKeys] at hBoth
  have hThen := follow_mergeValue_of_some (keysDistinct_merge hPatch hNext.2) hBoth
    (some (.object target))
  rw [Option.bind_some, hOld] at hThen
  exact hThen

/-- If the patch has no room for the next one, some fields show the difference:
those that have an object of their own where the patch has a plain value. -/
theorem makesRoomFor_of_assoc {patch next : Fields} (hPatch : (Value.object patch).KeysDistinct)
    (hNext : (Value.object next).KeysDistinct)
    (h : ∀ target : Fields, (Value.object target).KeysDistinct →
      (target.merge patch).merge next = target.merge (patch.merge next)) :
    (Value.object patch).MakesRoomFor (.object next) := by
  intro path found inner hFound hInner
  cases hFields : found.fields? with
  | some fields => exact ⟨fields, Value.eq_object_of_fields? hFields⟩
  | none =>
      exfalso
      obtain ⟨key, hKey⟩ := exists_not_mem_keys inner
      have hKeys : (keys inner).Nodup := (Value.keysDistinct_of_follow hNext hInner).1
      obtain ⟨target, hTarget⟩ : ∃ target : Fields,
          Value.object target = nest path (.object [(key, .null)]) := by
        cases path with
        | nil => exact ⟨_, rfl⟩
        | cons name rest => exact ⟨_, rfl⟩
      have hThere : (Value.object target).follow path = some (.object [(key, .null)]) := by
        rw [hTarget, follow_nest_self]
      have hOwn : (Value.object [(key, .null)]).KeysDistinct :=
        ⟨List.nodup_singleton key, trivial, trivial⟩
      have hOnce := @follow_merge_merge target patch next inner found path hPatch hNext hFound
        hFields hInner
      have hTogether : (Value.object (target.merge (patch.merge next))).follow path =
          some (.object (merge [(key, .null)] inner)) :=
        follow_merge_together hPatch hNext hFound hFields hInner hThere
      rw [h target (hTarget ▸ keysDistinct_nest hOwn path), hTogether] at hOnce
      have hNames := congrArg keys (Value.object.inj (Option.some.inj hOnce))
      rw [keys_merge hKeys] at hNames
      exact hKey (hNames ▸ List.mem_cons_self)

/-- What it means that merging is lawful: for a patch, merged into some fields,
and a next one. -/
structure LawfulMerge (target patch next : Fields) : Prop where
  again : (target.merge patch).merge patch = target.merge patch
  fresh : merge [] patch = patch
  /-- After merging there is an object wherever there was one before or the
  patch has one, unless the patch has a plain value on the way. -/
  objects : ∀ path, (Value.object (target.merge patch)).HasObject path ↔
    (Value.object patch).HasObject path ∨
      (Value.object target).HasObject path ∧ ¬ (Value.object patch).PlainAlong path
  /-- At every depth the old names come first and then the new ones, in the
  order of the patch. -/
  names : ∀ path, (Value.object (target.merge patch)).HasObject path →
    (Value.object (target.merge patch)).namesAt path = (Value.object target).namesAt path ++
      ((Value.object patch).namesAt path).filter (· ∉ (Value.object target).namesAt path)
  /-- Both patches can be merged together first, if and only if the first makes
  room for the next. -/
  together : (Value.object patch).MakesRoomFor (.object next) ↔
    ∀ target : Fields, (Value.object target).KeysDistinct →
      (target.merge patch).merge next = target.merge (patch.merge next)

/-- Merging is idempotent, has a unit and keeps the order of names. -/
theorem lawfulMerge (target : Fields) {patch next : Fields}
    (hPatch : (Value.object patch).KeysDistinct) (hNext : (Value.object next).KeysDistinct) :
    LawfulMerge target patch next where
  again := merge_again hPatch target
  fresh := merge_nil_left hPatch.1
  objects := hasObject_merge_iff hPatch
  names _ := namesAt_merge hPatch
  together := ⟨fun hRoom target _ => merge_assoc target hRoom hPatch hNext.1 hNext.2,
    makesRoomFor_of_assoc hPatch hNext⟩

end Fields

end DocQuery
