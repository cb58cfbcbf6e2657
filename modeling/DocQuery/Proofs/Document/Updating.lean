import DocQuery.Proofs.Document.Associativity
import DocQuery.Proofs.Document.FieldOrder
import DocQuery.Proofs.Document.Setters

/-! Updates of documents. Where no property is inside another, to merge in the
patch of some setters is to set one property after the other. So each property
reads as it was last set, everything apart from them all reads as before, and in
another order of the setters only the order of fields can be another. -/
namespace DocQuery

/-- No path leads to another. -/
def Unnested (paths : List String) : Prop :=
  ∀ first ∈ paths, ∀ second ∈ paths, fieldPath first <+: fieldPath second → first = second

instance (paths : List String) : Decidable (Unnested paths) :=
  inferInstanceAs (Decidable (∀ _ ∈ paths, _))

/-- Different paths of which none extends another go apart. -/
theorem Unnested.pathsApart {paths : List String} (h : Unnested paths) {first second : String}
    (hFirst : first ∈ paths) (hSecond : second ∈ paths) (hNe : first ≠ second) :
    PathsApart first second :=
  ⟨fun hPrefix => hNe (h first hFirst second hSecond hPrefix),
    fun hPrefix => hNe (h second hSecond first hFirst hPrefix).symm⟩

theorem Unnested.mono {paths others : List String} (h : Unnested paths) (hSub : others ⊆ paths) :
    Unnested others :=
  fun first hFirst second hSecond => h first (hSub hFirst) second (hSub hSecond)

namespace Fields

/-- The fields with every entry expanded as a dotted path and merged in, one
after the other. -/
def mergeAll (fields : Fields) (entries : List (String × Value)) : Fields :=
  entries.foldl (fun fields entry => fields.merge (expand entry.1 entry.2)) fields

theorem mergeAll_cons (fields : Fields) (path : String) (value : Value)
    (rest : List (String × Value)) :
    fields.mergeAll ((path, value) :: rest) = (fields.merge (expand path value)).mergeAll rest :=
  rfl

/-- Putting flattened fields together is merging them one by one into
nothing. -/
theorem unflatten_eq (flat : Fields) : flat.unflatten = mergeAll [] flat :=
  rfl

/-- On the way to what is read there are objects. -/
theorem object_of_follow_append {path rest : List String} {name : String} {value found : Value}
    (h : value.follow (path ++ name :: rest) = some found) :
    ∃ fields, value.follow path = some (.object fields) := by
  rw [follow_append] at h
  obtain ⟨above, hAbove, hRest⟩ := Option.bind_eq_some_iff.mp h
  cases above with
  | object fields => exact ⟨fields, hAbove⟩
  | _ => cases hRest

theorem object_expand (path : String) (value : Value) :
    Value.object (expand path value) = nest (fieldPath path) value := by
  obtain ⟨name, rest, hPath⟩ := List.exists_cons_of_ne_nil (fieldPath_ne_nil path)
  rw [expand, hPath]
  rfl

section Nested

variable {path : List String} {value : Value}

/-- Nesting adds one name at each depth. -/
theorem keysDistinct_nest (h : value.KeysDistinct) (path : List String) :
    (nest path value).KeysDistinct := by
  induction path with
  | nil => exact h
  | cons name rest ih => exact ⟨List.nodup_singleton name, ih, trivial⟩

/-- A plain value inside objects leaves objects above it alone. -/
theorem above_of_follow_nest (h : value.fields? = none) {other : List String} {inner : Fields}
    (hRead : (nest path value).follow other = some (.object inner)) :
    ∃ name rest, path = other ++ name :: rest := by
  induction path generalizing other with
  | nil =>
      cases other with
      | nil =>
          rw [nest, Value.follow, Option.some.injEq] at hRead
          rw [hRead] at h
          cases h
      | cons name other =>
          cases value with
          | object fields => cases h
          | _ => cases hRead
  | cons name rest ih =>
      cases other with
      | nil => exact ⟨name, rest, rfl⟩
      | cons first other =>
          rw [nest, Value.follow, get?_cons] at hRead
          split at hRead
          · rename_i hName
            obtain ⟨next, below, hRest⟩ := ih hRead
            exact ⟨next, below, by rw [hRest, hName, List.cons_append]⟩
          · cases hRead

end Nested

/-- On the way to a path there are objects, or nothing. -/
def HasRoomFor (fields : Fields) (path : String) : Prop :=
  ∀ above name below, fieldPath path = above ++ name :: below →
    ∀ found, (Value.object fields).follow above = some found → ∃ inner, found = .object inner

theorem hasRoomFor_nil (path : String) : HasRoomFor [] path := by
  intro above name below _ found hFound
  cases above with
  | nil => exact ⟨[], (Option.some.inj hFound).symm⟩
  | cons first above => cases hFound

section Room

variable {fields : Fields} {path other : String} {value : Value}

/-- A setter may be merged where no value without fields stands in its way. -/
theorem makesRoomFor_expand (h : fields.HasRoomFor path) (hPlain : value.fields? = none) :
    (Value.object fields).MakesRoomFor (.object (expand path value)) := by
  intro above found inner hFound hInner
  rw [object_expand] at hInner
  obtain ⟨name, below, hPath⟩ := above_of_follow_nest hPlain hInner
  exact h above name below hPath found hFound

/-- Merging a setter leaves the room for those that go apart from it. -/
theorem HasRoomFor.merge_expand (h : fields.HasRoomFor other) (hApart : PathsApart path other)
    (value : Value) : (fields.merge (expand path value)).HasRoomFor other := by
  intro above name below hOther found hFound
  have hPrefix : above <+: fieldPath other := ⟨name :: below, hOther.symm⟩
  rw [object_merge_expand] at hFound
  by_cases hAbove : Apart (fieldPath path) above
  · rw [follow_mergeValue_nest_of_apart hAbove] at hFound
    exact h above name below hOther found hFound
  · rw [Apart, ← not_or, not_not] at hAbove
    rcases hAbove with hInside | ⟨rest, hRest⟩
    · exact absurd (hInside.trans hPrefix) hApart.1
    · cases rest with
      | nil => exact absurd (hRest ▸ (List.append_nil above).symm ▸ hPrefix) hApart.1
      | cons next rest =>
          obtain ⟨inner, hInner⟩ := @follow_mergeValue_nest_above above value
            (some (.object fields)) next rest
          rw [hRest, hFound] at hInner
          exact ⟨inner, Option.some.inj hInner⟩

theorem keysDistinct_merge_expand (hFields : (Value.object fields).KeysDistinct)
    (hValue : value.KeysDistinct) (path : String) :
    (Value.object (fields.merge (expand path value))).KeysDistinct := by
  have hExpand := keysDistinct_nest hValue (fieldPath path)
  rw [← object_expand] at hExpand
  exact keysDistinct_merge hFields hExpand.2

end Room

/-- Entries that can be merged in one after the other in any order: plain values
under different names, of which none is inside another. -/
structure Independent (entries : List (String × Value)) : Prop where
  nodup : (keys entries).Nodup
  unnested : Unnested (keys entries)
  plain : ∀ entry ∈ entries, entry.2.fields? = none
  keysDistinct : ∀ entry ∈ entries, entry.2.KeysDistinct

namespace Independent

variable {entries others : List (String × Value)} {entry : String × Value} {fields : Fields}

theorem tail (h : Independent (entry :: entries)) : Independent entries where
  nodup := (List.nodup_cons.mp h.nodup).2
  unnested := h.unnested.mono (List.subset_cons_self _ _)
  plain := (List.forall_mem_cons.mp h.plain).2
  keysDistinct := (List.forall_mem_cons.mp h.keysDistinct).2

/-- The first is apart from all the others. -/
theorem pathsApart (h : Independent (entry :: entries)) {next : String × Value}
    (hNext : next ∈ entries) : PathsApart next.1 entry.1 ∧ PathsApart entry.1 next.1 := by
  have hKey : next.1 ∈ keys entries := List.mem_map_of_mem hNext
  have hNe : next.1 ≠ entry.1 := fun hSame => (List.nodup_cons.mp h.nodup).1 (hSame ▸ hKey)
  have hThere := List.mem_cons_of_mem entry.1 hKey
  exact ⟨h.unnested.pathsApart hThere List.mem_cons_self hNe,
    h.unnested.pathsApart List.mem_cons_self hThere hNe.symm⟩

/-- To merge in what the entries come to is to merge in one after the other. -/
theorem merge_mergeAll (h : Independent entries) (target : Fields)
    (hFields : (Value.object fields).KeysDistinct)
    (hRoom : ∀ entry ∈ entries, fields.HasRoomFor entry.1) :
    target.merge (fields.mergeAll entries) = (target.merge fields).mergeAll entries := by
  induction entries generalizing fields with
  | nil => rfl
  | cons entry rest ih =>
      obtain ⟨path, value⟩ := entry
      obtain ⟨hHere, hThere⟩ := List.forall_mem_cons.mp hRoom
      have hPlain := h.plain _ List.mem_cons_self
      have hDistinct := h.keysDistinct _ List.mem_cons_self
      have hExpand := keysDistinct_nest hDistinct (fieldPath path)
      rw [← object_expand] at hExpand
      rw [mergeAll_cons, mergeAll_cons, merge_assoc target (makesRoomFor_expand hHere hPlain)
        hFields hExpand.1 hExpand.2]
      refine ih h.tail (keysDistinct_merge_expand hFields hDistinct path) fun next hNext => ?_
      exact (hThere next hNext).merge_expand (h.pathsApart hNext).2 value

/-- Merging independent entries together is merging them one after the other. -/
theorem merge_unflatten (h : Independent entries) (fields : Fields) :
    fields.merge (unflatten entries) = fields.mergeAll entries := by
  have hEmpty : (Value.object []).KeysDistinct := ⟨List.nodup_nil, trivial⟩
  rw [unflatten_eq, h.merge_mergeAll fields hEmpty fun entry _ => hasRoomFor_nil entry.1, merge_nil]

/-- Names stay distinct however many entries are merged. -/
theorem keysDistinct_mergeAll (h : Independent entries)
    (hFields : (Value.object fields).KeysDistinct) :
    (Value.object (fields.mergeAll entries)).KeysDistinct := by
  induction entries generalizing fields with
  | nil => exact hFields
  | cons entry rest ih =>
      exact ih h.tail
        (keysDistinct_merge_expand hFields (h.keysDistinct entry List.mem_cons_self) entry.1)

end Independent

/-- At a path apart from all entries what was there is read. -/
theorem follow_mergeAll_of_apart {entries : List (String × Value)} {path : List String}
    (h : ∀ entry ∈ entries, Apart (fieldPath entry.1) path) (fields : Fields) :
    (Value.object (fields.mergeAll entries)).follow path = (Value.object fields).follow path := by
  induction entries generalizing fields with
  | nil => rfl
  | cons entry rest ih =>
      obtain ⟨hHere, hThere⟩ := List.forall_mem_cons.mp h
      rw [mergeAll_cons, ih hThere, object_merge_expand, follow_mergeValue_nest_of_apart hHere]
      rfl

namespace Independent

variable {entries others : List (String × Value)} {entry : String × Value}

/-- At the path of an entry its value is read. -/
theorem follow_mergeAll (h : Independent entries) (hEntry : entry ∈ entries) (fields : Fields) :
    (Value.object (fields.mergeAll entries)).follow (fieldPath entry.1) = some entry.2 := by
  induction entries generalizing fields with
  | nil => cases hEntry
  | cons first rest ih =>
      rw [mergeAll_cons]
      rcases List.mem_cons.mp hEntry with rfl | hRest
      · rw [follow_mergeAll_of_apart fun next hNext => (h.pathsApart hNext).1,
          object_merge_expand, follow_mergeValue_nest_self (h.plain entry List.mem_cons_self)]
      · exact ih h.tail hRest _

/-- What is read depends on the entries and not on their order. -/
theorem readAlike_mergeAll (h : Independent entries) (hOthers : Independent others)
    (hSame : ∀ entry, entry ∈ entries ↔ entry ∈ others) (fields : Fields) (path : List String) :
    Value.ReadAlike ((Value.object (fields.mergeAll entries)).follow path)
      ((Value.object (fields.mergeAll others)).follow path) := by
  by_cases hApart : ∀ entry ∈ entries, Apart (fieldPath entry.1) path
  · rw [follow_mergeAll_of_apart hApart,
      follow_mergeAll_of_apart fun entry hEntry => hApart entry ((hSame entry).mpr hEntry)]
    exact Value.readAlike_refl _
  · obtain ⟨entry, hEntry, hAlong⟩ : ∃ entry ∈ entries, ¬ Apart (fieldPath entry.1) path := by
      simpa using hApart
    have hHere := h.follow_mergeAll hEntry fields
    have hThere := hOthers.follow_mergeAll ((hSame entry).mp hEntry) fields
    rw [Apart, ← not_or, not_not] at hAlong
    rcases hAlong with ⟨below, rfl⟩ | ⟨below, hAbove⟩
    · rw [follow_append, follow_append, hHere, hThere]
      exact Value.readAlike_refl _
    · cases below with
      | nil =>
          rw [List.append_nil] at hAbove
          rw [hAbove, hHere, hThere]
          exact Value.readAlike_refl _
      | cons name below =>
          rw [← hAbove] at hHere hThere
          obtain ⟨inner, hInner⟩ := object_of_follow_append hHere
          obtain ⟨other, hOther⟩ := object_of_follow_append hThere
          exact Or.inr ⟨inner, other, hInner, hOther⟩

end Independent

end Fields

/-- The setters in another order, but those of one property in the same
order. -/
def Setter.Rearranged (setters others : List Setter) : Prop :=
  ∀ property, setters.filter (fun setter => setter.property = property) =
    others.filter fun setter => setter.property = property

/-- A property is set to what it was set to last. -/
theorem get?_setFields (setters : List Setter) (property : String) :
    (setFields setters).get? property =
      ((setters.filter fun setter => setter.property = property).getLast?).map
        fun setter => setter.value.toValue := by
  induction setters using List.reverseRecOn with
  | nil => rfl
  | append_singleton setters setter ih =>
      rw [setFields_eq, List.map_append, List.map_singleton, Setter.entry, Fields.ofList_append,
        List.filter_append]
      by_cases hSame : setter.property = property
      · subst hSame
        rw [Fields.get?_set_self, List.filter_singleton]
        simp
      · rw [Fields.get?_set_of_ne (Ne.symm hSame), ← setFields_eq, ih]
        simp [hSame]

/-- Rearranged setters set the same values. -/
theorem mem_setFields_iff {setters others : List Setter} (h : Setter.Rearranged setters others)
    (entry : String × Value) : entry ∈ setFields setters ↔ entry ∈ setFields others := by
  rw [← Fields.get?_eq_some_iff (nodup_keys_setFields setters),
    ← Fields.get?_eq_some_iff (nodup_keys_setFields others), get?_setFields, get?_setFields,
    h entry.1]

theorem mem_keys_setFields {setters : List Setter} {property : String} :
    property ∈ (setFields setters).keys ↔ property ∈ setters.map Setter.property := by
  rw [setFields_eq, Fields.mem_keys_ofList, Setter.map_entry_fst]

/-- Setters of which none extends another do not stand in the way of one
another. -/
theorem independent_setFields {setters : List Setter}
    (h : Unnested (setters.map Setter.property)) : Fields.Independent (setFields setters) where
  nodup := nodup_keys_setFields setters
  unnested := h.mono fun _ hKey => mem_keys_setFields.mp hKey
  plain := plain_setFields
  keysDistinct := by
    intro entry hEntry
    obtain ⟨setter, _, rfl⟩ := List.mem_map.mp (Fields.mem_of_mem_ofList hEntry)
    exact setter.value.keysDistinct_toValue

theorem Setter.Rearranged.subset {setters others : List Setter}
    (h : Setter.Rearranged setters others) :
    others.map Setter.property ⊆ setters.map Setter.property := by
  intro property hProperty
  obtain ⟨setter, hSetter, rfl⟩ := List.mem_map.mp hProperty
  have hFound : setter ∈ others.filter fun other => other.property = setter.property := by
    simp [hSetter]
  rw [← h setter.property] at hFound
  exact List.mem_map_of_mem (List.mem_of_mem_filter hFound)

/-- An update sets what it names and nothing else. If no property of its setters
is inside another, each reads as it was last set, and what is apart from all of
them reads as before, found or not. The setters of different properties may come
in any order: the document is the same but for the order of fields. -/
theorem update_sets_named_fields {setters : List Setter}
    (h : Unnested (setters.map Setter.property)) (fields : Fields) :
    (∀ before setter after, setters = before ++ setter :: after →
      setter.property ∉ after.map Setter.property →
      (fields.merge (patchOf setters)).field? setter.property = some setter.value.toValue) ∧
    (∀ path, (∀ setter ∈ setters, PathsApart setter.property path) →
      (fields.merge (patchOf setters)).field? path = fields.field? path) ∧
    ((Value.object fields).KeysDistinct → ∀ others, Setter.Rearranged setters others →
      (Value.object (fields.merge (patchOf setters))).SameButOrder
        (.object (fields.merge (patchOf others)))) := by
  have hEntries := independent_setFields h
  have hPatch : fields.merge (patchOf setters) = fields.mergeAll (setFields setters) :=
    hEntries.merge_unflatten fields
  rw [hPatch]
  refine ⟨?_, ?_, ?_⟩
  · rintro before setter after rfl hLast
    rw [Fields.field?_eq]
    exact hEntries.follow_mergeAll (entry_mem_setFields hLast before) fields
  · intro path hApart
    rw [Fields.field?_eq, Fields.field?_eq]
    refine Fields.follow_mergeAll_of_apart (fun entry hEntry => ?_) fields
    obtain ⟨setter, hSetter, rfl⟩ := List.mem_map.mp (Fields.mem_of_mem_ofList hEntry)
    exact hApart setter hSetter
  · intro hFields others hOthers
    have hOtherEntries := independent_setFields (h.mono hOthers.subset)
    have hOtherPatch : fields.merge (patchOf others) = fields.mergeAll (setFields others) :=
      hOtherEntries.merge_unflatten fields
    rw [hOtherPatch]
    exact Value.sameButOrder_of_readAlike (hEntries.keysDistinct_mergeAll hFields)
      (hOtherEntries.keysDistinct_mergeAll hFields)
      (hEntries.readAlike_mergeAll hOtherEntries (mem_setFields_iff hOthers) fields)

/-- A document with a plain value where the setters below need an object. -/
def Fields.plainParent : Fields :=
  [("a", .number (.integer 1)), ("k", .bool true)]

/-- Setters that share an object, one of them given twice. -/
def sharedSetters : List Setter :=
  [⟨"a.b", .integer 1⟩, ⟨"a.c", .string "x"⟩, ⟨"a.b", .integer 2⟩]

/-- The same setters with the property that is set once in front. -/
def swappedSetters : List Setter :=
  [⟨"a.c", .string "x"⟩, ⟨"a.b", .integer 1⟩, ⟨"a.b", .integer 2⟩]

/-- Two setters below one parent, in both orders, where the parent held a plain
value. -/
theorem update_sets_named_fields_plainParent :
    (Unnested (sharedSetters.map Setter.property) ∧ (Value.object Fields.plainParent).KeysDistinct ∧
      Setter.Rearranged sharedSetters swappedSetters) ∧
    (Fields.plainParent.merge (patchOf sharedSetters)).field? "a.b" = some (.number (.integer 2)) ∧
    (Fields.plainParent.merge (patchOf sharedSetters)).field? "a.d" = none ∧
    (Fields.plainParent.merge (patchOf sharedSetters)).field? "k" = some (.bool true) ∧
    (Value.object (Fields.plainParent.merge (patchOf sharedSetters))).SameButOrder
      (.object (Fields.plainParent.merge (patchOf swappedSetters))) := by
  have hUnnested : Unnested (sharedSetters.map Setter.property) := by decide +kernel
  have hDistinct : (Value.object Fields.plainParent).KeysDistinct := by
    simp [Fields.plainParent, Value.KeysDistinct, Value.FieldsDistinct, Fields.keys]
  have hRearranged : Setter.Rearranged sharedSetters swappedSetters := by
    intro property
    by_cases hTwice : "a.b" = property
    · subst hTwice
      rfl
    · simp [sharedSetters, swappedSetters, List.filter_cons, hTwice]
  have hApart (path : String) (h : PathsApart "a.b" path) (hOther : PathsApart "a.c" path) :
      ∀ setter ∈ sharedSetters, PathsApart setter.property path := by
    simp [sharedSetters, h, hOther]
  obtain ⟨hSet, hKept, hOrder⟩ := update_sets_named_fields hUnnested Fields.plainParent
  refine ⟨⟨hUnnested, hDistinct, hRearranged⟩, ?_, ?_, ?_, hOrder hDistinct _ hRearranged⟩
  · exact hSet [⟨"a.b", .integer 1⟩, ⟨"a.c", .string "x"⟩] ⟨"a.b", .integer 2⟩ [] rfl (by simp)
  · exact hKept "a.d" (hApart "a.d" (by decide +kernel) (by decide +kernel))
  · exact hKept "k" (hApart "k" (by decide +kernel) (by decide +kernel))

end DocQuery
