import DocQuery.Proofs.Value.Fields
import DocQuery.Value.Order

/-! Equality of values, by structure and in queries. Both are equivalences
between values in which no object names a field twice, and equality of structure
is the finer one. -/
namespace DocQuery

theorem Double.equal_refl (x : Double) : x.equal x = true :=
  beq_self_eq_true x.units

theorem Number.same_refl (n : Number) : n.same n = true := by
  cases n with
  | integer n => exact beq_self_eq_true n
  | real x => exact x.equal_refl

namespace Value

mutual

theorem same_refl (value : Value) (h : value.KeysDistinct) : value.same value = true := by
  cases value with
  | null => rfl
  | bool b => exact beq_self_eq_true b
  | number n => exact n.same_refl
  | string s => exact beq_self_eq_true s
  | array items => exact sameItems_refl items h
  | object fields =>
      obtain ⟨hKeys, hFields⟩ := h
      have hSame := sameFields_of_subset fields hFields hKeys (List.Subset.refl fields)
      simp [same, hSame]

theorem sameItems_refl (items : List Value) (h : ItemsDistinct items) :
    sameItems items items = true := by
  cases items with
  | nil => rfl
  | cons item rest => simp [sameItems, same_refl item h.1, sameItems_refl rest h.2]

/-- Some of the fields of an object are found in it with their values. -/
theorem sameFields_of_subset (part : List (String × Value)) (h : FieldsDistinct part)
    {fields : Fields} (hKeys : fields.keys.Nodup) (hPart : part ⊆ fields) :
    sameFields part fields = true := by
  cases part with
  | nil => rfl
  | cons field rest =>
      obtain ⟨name, value⟩ := field
      obtain ⟨hField, hRest⟩ := List.cons_subset.mp hPart
      simp [sameFields, Fields.get?_of_mem hKeys hField, same_refl value h.1,
        sameFields_of_subset rest h.2 hKeys hRest]

end

mutual

theorem equal_refl (value : Value) (h : value.KeysDistinct) : value.equal value = true := by
  cases value with
  | null => rfl
  | bool b => exact beq_self_eq_true b
  | number n => exact n.toDouble.equal_refl
  | string s => exact beq_self_eq_true s
  | array items => exact equalItems_refl items h
  | object fields => exact same_refl (.object fields) h

theorem equalItems_refl (items : List Value) (h : ItemsDistinct items) :
    equalItems items items = true := by
  cases items with
  | nil => rfl
  | cons item rest => simp [equalItems, equal_refl item h.1, equalItems_refl rest h.2]

end

end Value

section Laws

theorem Double.equal_symm {x y : Double} (h : x.equal y = true) : y.equal x = true :=
  beq_iff_eq.mpr (beq_iff_eq.mp h).symm

theorem Double.equal_trans {x y z : Double} (hFirst : x.equal y = true)
    (hSecond : y.equal z = true) :
    x.equal z = true :=
  beq_iff_eq.mpr ((beq_iff_eq.mp hFirst).trans (beq_iff_eq.mp hSecond))

namespace Number

variable {m n o : Number}

theorem same_symm (h : m.same n = true) : n.same m = true := by
  cases m with
  | integer a =>
      cases n with
      | integer b => exact beq_iff_eq.mpr (beq_iff_eq.mp h).symm
      | real y => cases h
  | real x =>
      cases n with
      | integer b => cases h
      | real y => exact Double.equal_symm h

theorem same_trans (hFirst : m.same n = true) (hSecond : n.same o = true) : m.same o = true := by
  cases m with
  | integer a =>
      cases n with
      | integer b => rwa [beq_iff_eq.mp hFirst]
      | real y => cases hFirst
  | real x =>
      cases n with
      | integer b => cases hFirst
      | real y =>
          cases o with
          | integer c => cases hSecond
          | real z => exact Double.equal_trans hFirst hSecond

theorem equal_of_same (h : m.same n = true) : m.equal n = true := by
  cases m with
  | integer a =>
      cases n with
      | integer b =>
          obtain rfl := beq_iff_eq.mp h
          exact Double.equal_refl _
      | real y => cases h
  | real x =>
      cases n with
      | integer b => cases h
      | real y => exact h

end Number

namespace Value

theorem sameFields_iff {fields others : Fields} : sameFields fields others = true ↔
    ∀ field ∈ fields, ∃ other, others.get? field.1 = some other ∧ field.2.same other = true := by
  induction fields with
  | nil => simp [sameFields]
  | cons field rest ih =>
      obtain ⟨name, value⟩ := field
      rw [sameFields, Bool.and_eq_true, ih, List.forall_mem_cons]
      refine and_congr_left fun _ => ?_
      cases others.get? name with
      | none => simp
      | some other => simp

theorem same_object_iff {fields others : Fields} :
    (Value.object fields).same (.object others) = true ↔ fields.length = others.length ∧
      ∀ field ∈ fields, ∃ other, others.get? field.1 = some other ∧ field.2.same other = true := by
  rw [same, Bool.and_eq_true, beq_iff_eq, sameFields_iff]

/-- Fields found among equally many others are all of them. -/
theorem exists_mem_of_length_eq {fields others : Fields} (hKeys : fields.keys.Nodup)
    (hLength : fields.length = others.length) (hSub : fields.keys ⊆ others.keys)
    {name : String} (h : name ∈ others.keys) : ∃ value, (name, value) ∈ fields := by
  have hPerm := (List.subperm_of_subset hKeys hSub).perm_of_length_le
    (by simp [Fields.keys, hLength])
  obtain ⟨field, hField, rfl⟩ := List.mem_map.mp (hPerm.mem_iff.mpr h)
  exact ⟨field.2, hField⟩

mutual

theorem same_symm {first second : Value} (hFirst : first.KeysDistinct)
    (hSecond : second.KeysDistinct) (h : first.same second = true) : second.same first = true := by
  cases first with
  | null =>
      cases second with
      | null => rfl
      | _ => cases h
  | bool a =>
      cases second with
      | bool b => exact beq_iff_eq.mpr (beq_iff_eq.mp h).symm
      | _ => cases h
  | number m =>
      cases second with
      | number n => exact Number.same_symm h
      | _ => cases h
  | string s =>
      cases second with
      | string t => exact beq_iff_eq.mpr (beq_iff_eq.mp h).symm
      | _ => cases h
  | array xs =>
      cases second with
      | array ys => exact sameItems_symm hFirst hSecond h
      | _ => cases h
  | object fields =>
      cases second with
      | object others =>
          obtain ⟨hLength, hThere⟩ := same_object_iff.mp h
          have hSub : Fields.keys fields ⊆ Fields.keys others := by
            intro name hName
            obtain ⟨field, hField, rfl⟩ := List.mem_map.mp hName
            obtain ⟨other, hOther, _⟩ := hThere field hField
            exact List.mem_map.mpr ⟨_, Fields.mem_of_get? hOther, rfl⟩
          refine same_object_iff.mpr ⟨hLength.symm, fun other hOther => ?_⟩
          obtain ⟨value, hValue⟩ := exists_mem_of_length_eq hFirst.1 hLength hSub
            (List.mem_map_of_mem hOther)
          obtain ⟨found, hFound, hSame⟩ := hThere _ hValue
          obtain rfl : found = other.2 :=
            Option.some.inj (hFound.symm.trans (Fields.get?_of_mem hSecond.1 hOther))
          refine ⟨value, Fields.get?_of_mem hFirst.1 hValue, ?_⟩
          exact sameField_symm hFirst.2 hValue
            (Fields.fieldsDistinct_iff.mp hSecond.2 _ hOther) hSame
      | _ => cases h
termination_by structural first

theorem sameItems_symm {xs ys : List Value} (hFirst : ItemsDistinct xs) (hSecond : ItemsDistinct ys)
    (h : sameItems xs ys = true) : sameItems ys xs = true := by
  cases xs with
  | nil =>
      cases ys with
      | nil => rfl
      | cons y ys => cases h
  | cons x xs =>
      cases ys with
      | nil => cases h
      | cons y ys =>
          obtain ⟨hHere, hThere⟩ := Bool.and_eq_true_iff.mp h
          exact Bool.and_eq_true_iff.mpr
            ⟨same_symm hFirst.1 hSecond.1 hHere, sameItems_symm hFirst.2 hSecond.2 hThere⟩
termination_by structural xs

theorem sameField_symm {fields : Fields} (hFields : FieldsDistinct fields) {field : String × Value}
    (hField : field ∈ fields) {other : Value} (hOther : other.KeysDistinct)
    (h : field.2.same other = true) : other.same field.2 = true := by
  cases fields with
  | nil => cases hField
  | cons first rest =>
      obtain ⟨name, value⟩ := first
      rcases List.mem_cons.mp hField with rfl | hRest
      · exact same_symm hFields.1 hOther h
      · exact sameField_symm hFields.2 hRest hOther h
termination_by structural fields

end

mutual

theorem same_trans {first second third : Value} (hFirst : first.same second = true)
    (hSecond : second.same third = true) : first.same third = true := by
  cases first with
  | null =>
      cases second with
      | null => exact hSecond
      | _ => cases hFirst
  | bool a =>
      cases second with
      | bool b => rwa [beq_iff_eq.mp hFirst]
      | _ => cases hFirst
  | number m =>
      cases second with
      | number n =>
          cases third with
          | number o => exact Number.same_trans hFirst hSecond
          | _ => cases hSecond
      | _ => cases hFirst
  | string s =>
      cases second with
      | string t => rwa [beq_iff_eq.mp hFirst]
      | _ => cases hFirst
  | array xs =>
      cases second with
      | array ys =>
          cases third with
          | array zs => exact sameItems_trans hFirst hSecond
          | _ => cases hSecond
      | _ => cases hFirst
  | object fields =>
      cases second with
      | object others =>
          cases third with
          | object last =>
              obtain ⟨hLength, hThere⟩ := same_object_iff.mp hFirst
              obtain ⟨hNext, hLast⟩ := same_object_iff.mp hSecond
              refine same_object_iff.mpr ⟨hLength.trans hNext, fun field hField => ?_⟩
              obtain ⟨middle, hMiddle, hSame⟩ := hThere field hField
              obtain ⟨found, hFound, hAgain⟩ := hLast _ (Fields.mem_of_get? hMiddle)
              exact ⟨found, hFound, sameField_trans hField hSame hAgain⟩
          | _ => cases hSecond
      | _ => cases hFirst
termination_by structural first

theorem sameItems_trans {xs ys zs : List Value} (hFirst : sameItems xs ys = true)
    (hSecond : sameItems ys zs = true) : sameItems xs zs = true := by
  cases xs with
  | nil =>
      cases ys with
      | nil => exact hSecond
      | cons y ys => cases hFirst
  | cons x xs =>
      cases ys with
      | nil => cases hFirst
      | cons y ys =>
          cases zs with
          | nil => cases hSecond
          | cons z zs =>
              obtain ⟨hHere, hThere⟩ := Bool.and_eq_true_iff.mp hFirst
              obtain ⟨hNext, hRest⟩ := Bool.and_eq_true_iff.mp hSecond
              exact Bool.and_eq_true_iff.mpr ⟨same_trans hHere hNext, sameItems_trans hThere hRest⟩
termination_by structural xs

theorem sameField_trans {fields : Fields} {field : String × Value} (hField : field ∈ fields)
    {second third : Value} (hFirst : field.2.same second = true)
    (hSecond : second.same third = true) : field.2.same third = true := by
  cases fields with
  | nil => cases hField
  | cons first rest =>
      obtain ⟨name, value⟩ := first
      rcases List.mem_cons.mp hField with rfl | hRest
      · exact same_trans hFirst hSecond
      · exact sameField_trans hRest hFirst hSecond
termination_by structural fields

end

mutual

/-- Values of the same structure are equal. -/
theorem equal_of_same {first second : Value} (h : first.same second = true) :
    first.equal second = true := by
  cases first with
  | number m =>
      cases second with
      | number n => exact Number.equal_of_same h
      | _ => cases h
  | array xs =>
      cases second with
      | array ys => exact equalItems_of_sameItems h
      | _ => cases h
  | _ => cases second <;> exact h
termination_by structural first

theorem equalItems_of_sameItems {xs ys : List Value} (h : sameItems xs ys = true) :
    equalItems xs ys = true := by
  cases xs with
  | nil =>
      cases ys with
      | nil => rfl
      | cons y ys => cases h
  | cons x xs =>
      cases ys with
      | nil => cases h
      | cons y ys =>
          obtain ⟨hHere, hThere⟩ := Bool.and_eq_true_iff.mp h
          exact Bool.and_eq_true_iff.mpr ⟨equal_of_same hHere, equalItems_of_sameItems hThere⟩
termination_by structural xs

end

mutual

theorem equal_symm {first second : Value} (hFirst : first.KeysDistinct)
    (hSecond : second.KeysDistinct) (h : first.equal second = true) :
    second.equal first = true := by
  cases first with
  | null =>
      cases second with
      | null => rfl
      | _ => cases h
  | bool a =>
      cases second with
      | bool b => exact beq_iff_eq.mpr (beq_iff_eq.mp h).symm
      | _ => cases h
  | number m =>
      cases second with
      | number n => exact Double.equal_symm h
      | _ => cases h
  | string s =>
      cases second with
      | string t => exact beq_iff_eq.mpr (beq_iff_eq.mp h).symm
      | _ => cases h
  | array xs =>
      cases second with
      | array ys => exact equalItems_symm hFirst hSecond h
      | _ => cases h
  | object fields =>
      cases second with
      | object others => exact same_symm hFirst hSecond h
      | _ => cases h
termination_by structural first

theorem equalItems_symm {xs ys : List Value} (hFirst : ItemsDistinct xs)
    (hSecond : ItemsDistinct ys) (h : equalItems xs ys = true) : equalItems ys xs = true := by
  cases xs with
  | nil =>
      cases ys with
      | nil => rfl
      | cons y ys => cases h
  | cons x xs =>
      cases ys with
      | nil => cases h
      | cons y ys =>
          obtain ⟨hHere, hThere⟩ := Bool.and_eq_true_iff.mp h
          exact Bool.and_eq_true_iff.mpr
            ⟨equal_symm hFirst.1 hSecond.1 hHere, equalItems_symm hFirst.2 hSecond.2 hThere⟩
termination_by structural xs

end

mutual

theorem equal_trans {first second third : Value} (hFirst : first.equal second = true)
    (hSecond : second.equal third = true) : first.equal third = true := by
  cases first with
  | null =>
      cases second with
      | null => exact hSecond
      | _ => cases hFirst
  | bool a =>
      cases second with
      | bool b => rwa [beq_iff_eq.mp hFirst]
      | _ => cases hFirst
  | number m =>
      cases second with
      | number n =>
          cases third with
          | number o => exact Double.equal_trans hFirst hSecond
          | _ => cases hSecond
      | _ => cases hFirst
  | string s =>
      cases second with
      | string t => rwa [beq_iff_eq.mp hFirst]
      | _ => cases hFirst
  | array xs =>
      cases second with
      | array ys =>
          cases third with
          | array zs => exact equalItems_trans hFirst hSecond
          | _ => cases hSecond
      | _ => cases hFirst
  | object fields =>
      cases second with
      | object others =>
          cases third with
          | object last =>
              have hHere : (Value.object fields).same (.object others) = true := hFirst
              have hNext : (Value.object others).same (.object last) = true := hSecond
              exact same_trans hHere hNext
          | _ => cases hSecond
      | _ => cases hFirst
termination_by structural first

theorem equalItems_trans {xs ys zs : List Value} (hFirst : equalItems xs ys = true)
    (hSecond : equalItems ys zs = true) : equalItems xs zs = true := by
  cases xs with
  | nil =>
      cases ys with
      | nil => exact hSecond
      | cons y ys => cases hFirst
  | cons x xs =>
      cases ys with
      | nil => cases hFirst
      | cons y ys =>
          cases zs with
          | nil => cases hSecond
          | cons z zs =>
              obtain ⟨hHere, hThere⟩ := Bool.and_eq_true_iff.mp hFirst
              obtain ⟨hNext, hRest⟩ := Bool.and_eq_true_iff.mp hSecond
              exact Bool.and_eq_true_iff.mpr
                ⟨equal_trans hHere hNext, equalItems_trans hThere hRest⟩
termination_by structural xs

end

end Value

end Laws

end DocQuery
