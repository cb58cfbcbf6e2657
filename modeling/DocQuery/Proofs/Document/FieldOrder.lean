import DocQuery.Document.Field
import DocQuery.Proofs.Value.Fields

/-! Values that differ in the order of fields alone. Such values answer every
look-up alike, and the converse is what is shown here: if the same is read from
two values at every path, objects apart, then they have the same fields at every
level. -/
namespace DocQuery

namespace Value

mutual

/-- The same value but for the order of the fields in objects. -/
inductive SameButOrder : Value → Value → Prop
  | refl (value : Value) : SameButOrder value value
  | object {fields others : List (String × Value)} (h : FieldsSameButOrder fields others) :
      SameButOrder (.object fields) (.object others)

/-- The same fields in any order. -/
inductive FieldsSameButOrder : List (String × Value) → List (String × Value) → Prop
  | nil : FieldsSameButOrder [] []
  | cons {name : String} {value other : Value} {fields before after : List (String × Value)}
      (hValue : SameButOrder value other) (hFields : FieldsSameButOrder fields (before ++ after)) :
      FieldsSameButOrder ((name, value) :: fields) (before ++ (name, other) :: after)

end

/-- What is read is the same, or an object on both sides. -/
def ReadAlike (first second : Option Value) : Prop :=
  first = second ∨
    ∃ fields others, first = some (.object fields) ∧ second = some (.object others)

theorem readAlike_refl (value : Option Value) : ReadAlike value value :=
  Or.inl rfl

theorem ReadAlike.isSome {first second : Option Value} (h : ReadAlike first second) :
    first.isSome = second.isSome := by
  rcases h with rfl | ⟨fields, others, rfl, rfl⟩
  · rfl
  · rfl

end Value

namespace Fields

/-- To take out a field is to lose its name and no other. -/
theorem get?_remove {before after : Fields} {name : String} {value : Value}
    (h : (keys (before ++ (name, value) :: after)).Nodup) (key : String) :
    get? (before ++ after) key =
      if key = name then none else get? (before ++ (name, value) :: after) key := by
  have hPerm : (before ++ (name, value) :: after).Perm ((name, value) :: (before ++ after)) :=
    List.perm_middle
  have hKeys := (hPerm.map Prod.fst).nodup_iff.mp h
  obtain ⟨hName, hRest⟩ := List.nodup_cons.mp hKeys
  split
  · rename_i hSame
    exact get?_eq_none_iff.mpr (hSame ▸ hName)
  · rename_i hOther
    apply Option.ext
    intro found
    rw [get?_eq_some_iff hRest, get?_eq_some_iff h, hPerm.mem_iff, List.mem_cons, Prod.mk.injEq]
    exact ⟨Or.inr, fun hMem => hMem.resolve_left fun hHere => hOther hHere.1⟩

end Fields

namespace Value

mutual

/-- Values from which the same is read at every path are the same but for the
order of fields. -/
theorem sameButOrder_of_readAlike {first second : Value} (hFirst : first.KeysDistinct)
    (hSecond : second.KeysDistinct)
    (h : ∀ path, ReadAlike (first.follow path) (second.follow path)) :
      first.SameButOrder second := by
  rcases h [] with hSame | ⟨fields, others, hFields, hOthers⟩
  · rw [Option.some.inj hSame]
    exact .refl second
  · cases first with
    | object fields =>
        obtain rfl := Option.some.inj hOthers
        refine .object (fieldsSameButOrder_of_readAlike hFirst.1 hFirst.2 hSecond.1 hSecond.2 ?_)
        intro name path
        exact h (name :: path)
    | _ => cases hFields

/-- Fields that read alike at every path differ only in the order of their
names. -/
theorem fieldsSameButOrder_of_readAlike {fields others : Fields} (hKeys : fields.keys.Nodup)
    (hFields : FieldsDistinct fields) (hOtherKeys : others.keys.Nodup)
    (hOthers : FieldsDistinct others)
    (h : ∀ name path, ReadAlike ((fields.get? name).bind (follow path))
      ((others.get? name).bind (follow path))) : FieldsSameButOrder fields others := by
  cases fields with
  | nil =>
      cases others with
      | nil => exact .nil
      | cons entry rest =>
          have hNone := h entry.1 []
          rw [Fields.get?_cons, if_pos rfl] at hNone
          cases hNone.isSome
  | cons entry rest =>
      obtain ⟨name, value⟩ := entry
      obtain ⟨hNew, hRest⟩ := List.nodup_cons.mp hKeys
      have hHere : Fields.get? ((name, value) :: rest) name = some value := by
        rw [Fields.get?_cons, if_pos rfl]
      obtain ⟨other, hOther⟩ : ∃ other, others.get? name = some other := by
        have hSome := (h name []).isSome
        rw [hHere] at hSome
        cases hGet : others.get? name with
        | none =>
            rw [hGet] at hSome
            cases hSome
        | some other => exact ⟨other, rfl⟩
      obtain ⟨before, after, rfl⟩ := List.append_of_mem (Fields.mem_of_get? hOther)
      have hWithout : (before ++ after).Sublist (before ++ (name, other) :: after) :=
        (List.sublist_cons_self _ _).append_left before
      have hBelow := Fields.fieldsDistinct_iff.mp hOthers
      refine .cons (sameButOrder_of_readAlike hFields.1 (hBelow _ (Fields.mem_of_get? hOther)) ?_)
        (fieldsSameButOrder_of_readAlike hRest hFields.2 ?_ ?_ ?_)
      · intro path
        have hPath := h name path
        rw [hHere, hOther] at hPath
        exact hPath
      · exact hOtherKeys.sublist (hWithout.map Prod.fst)
      · exact Fields.fieldsDistinct_iff.mpr fun field hField =>
          hBelow field (hWithout.subset hField)
      · intro key path
        rw [Fields.get?_remove hOtherKeys]
        split
        · rename_i hSame
          rw [Fields.get?_eq_none_iff.mpr (hSame ▸ hNew)]
          exact readAlike_refl none
        · rename_i hDiffer
          have hPath := h key path
          rw [Fields.get?_cons, if_neg hDiffer] at hPath
          exact hPath

end

end Value

end DocQuery
