import DocQuery.Proofs.Store.Ranking
import DocQuery.Proofs.Value.Equality
import Mathlib.Order.Defs.Unbundled

/-! Comparisons put values and documents into one line. Values are ordered up to
ties, and equal values always tie, so sorting by keys has a meaning; places in
the store are ordered without ties, so paging has one. -/
namespace DocQuery

/-- A comparison after which things stand in one line, with ties: it reads the
same from either side, and two steps that do not go down make one. -/
structure IsTotalPreorder {α : Type} (cmp : α → α → Ordering) : Prop where
  reverse : ∀ a b, cmp b a = (cmp a b).swap
  refl : ∀ a, cmp a a = .eq
  steps : ∀ a b c, (cmp a b).isLE = true → (cmp b c).isLE = true →
    cmp a c = (cmp a b).then (cmp b c)

/-- A comparison that is oriented and transitive is a total preorder. -/
theorem isTotalPreorder_of_transCmp {α : Type} (cmp : α → α → Ordering) [Std.TransCmp cmp] :
    IsTotalPreorder cmp where
  reverse _ _ := Std.OrientedCmp.eq_swap
  refl _ := Std.ReflCmp.compare_self
  steps a b c hFirst hSecond := by
    cases hStep : cmp a b with
    | lt => exact Std.TransCmp.lt_of_lt_of_isLE hStep hSecond
    | eq => exact Std.TransCmp.congr_left hStep
    | gt => simp [hStep] at hFirst

namespace Value

/-- Equal numbers tie. -/
theorem order_number_of_equal {m n : Number} (h : m.equal n = true) : m.order n = .eq := by
  have hUnits : m.toDouble.units = n.toDouble.units := beq_iff_eq.mp h
  rw [Number.order, Double.order, hUnits]
  exact Std.ReflCmp.compare_self

mutual

/-- Equal values are at the same place in the order. -/
theorem order_of_equal {first second : Value} (h : first.equal second = true) :
    first.order second = .eq := by
  cases first with
  | null =>
      cases second with
      | null => rfl
      | _ => cases h
  | bool a =>
      cases second with
      | bool b =>
          obtain rfl := beq_iff_eq.mp h
          exact Std.ReflCmp.compare_self
      | _ => cases h
  | number m =>
      cases second with
      | number n => exact order_number_of_equal h
      | _ => cases h
  | string s =>
      cases second with
      | string t =>
          obtain rfl := beq_iff_eq.mp h
          exact Std.ReflCmp.compare_self
      | _ => cases h
  | array xs =>
      cases second with
      | array ys => exact orderItems_of_equalItems h
      | _ => cases h
  | object fields =>
      cases second with
      | object others =>
          have hLength : fields.length = others.length := (same_object_iff.mp h).1
          rw [order, hLength]
          exact Std.ReflCmp.compare_self
      | _ => cases h
termination_by structural first

theorem orderItems_of_equalItems {xs ys : List Value} (h : equalItems xs ys = true) :
    orderItems xs ys = .eq := by
  cases xs with
  | nil =>
      cases ys with
      | nil => rfl
      | cons y ys => cases h
  | cons x xs =>
      cases ys with
      | nil => cases h
      | cons y ys =>
          obtain ⟨hHere, hThere⟩ := Bool.and_eq_true_iff.mp h
          exact Ordering.then_eq_eq.mpr ⟨order_of_equal hHere, orderItems_of_equalItems hThere⟩
termination_by structural xs

end

/-- Equality in queries is an equivalence of values in which no object names a
field twice. -/
theorem equal_equivalence :
    Equivalence fun a b : { value : Value // value.KeysDistinct } => a.1.equal b.1 = true where
  refl a := equal_refl a.1 a.2
  symm {a b} h := equal_symm a.2 b.2 h
  trans hFirst hSecond := equal_trans hFirst hSecond

end Value

/-- Sorting loses no document and adds none. -/
theorem sortDocuments_perm (keys : List OrderKey) (documents : List Document) :
    (sortDocuments keys documents).Perm documents :=
  List.mergeSort_perm _ _

/-- Sorted documents are in the order of the keys. -/
theorem pairwise_sortDocuments (keys : List OrderKey) (documents : List Document) :
    (sortDocuments keys documents).Pairwise fun a b => (compareByKeys keys a b).isLE = true :=
  List.pairwise_mergeSort (fun _ _ _ => Std.TransCmp.isLE_trans) (isLE_total (compareByKeys keys)) _

/-- Documents of different paths stand in one line, each before the next. -/
theorem comparePlaces_isStrictTotalOrder (orders : List FieldOrder) {documents : Set Document}
    (hPaths : ∀ a ∈ documents, ∀ b ∈ documents, a.path = b.path → a = b) :
    IsStrictTotalOrder { document // document ∈ documents } fun a b =>
      comparePlaces orders a.1 b.1 = .lt where
  trichotomous a b hNotBefore hNotAfter := by
    refine Subtype.ext (hPaths a.1 a.2 b.1 b.2 (@path_eq_of_comparePlaces orders _ _ ?_))
    cases hStep : comparePlaces orders a.1 b.1 with
    | eq => rfl
    | lt => exact absurd hStep hNotBefore
    | gt => exact absurd (Std.OrientedCmp.lt_of_gt hStep) hNotAfter
  irrefl a h := by
    have hSelf : comparePlaces orders a.1 a.1 = .eq := Std.ReflCmp.compare_self
    rw [hSelf] at h
    cases h
  trans _ _ _ hFirst hSecond := Std.TransCmp.lt_trans hFirst hSecond

/-- What sorting by keys and paging along fields rest on. -/
structure SoundComparisons (keys : List OrderKey) (orders : List FieldOrder) : Prop where
  values : IsTotalPreorder Value.order
  equality :
    Equivalence fun a b : { value : Value // value.KeysDistinct } => a.1.equal b.1 = true
  tied : ∀ a b : Value, a.equal b = true → a.order b = .eq
  keyed : IsTotalPreorder (compareByKeys keys)
  /-- Sorting keeps all documents and leaves none before one that comes
  earlier. -/
  sorted : ∀ documents, (sortDocuments keys documents).Perm documents ∧
    (sortDocuments keys documents).Pairwise fun a b => (compareByKeys keys a b).isLE = true
  placed : ∀ documents : Set Document,
    (∀ a ∈ documents, ∀ b ∈ documents, a.path = b.path → a = b) →
      IsStrictTotalOrder { document // document ∈ documents } fun a b =>
        comparePlaces orders a.1 b.1 = .lt

/-- Values and documents are in a total order, up to ties of values, and places
in the store in a strict one, for all keys and fields to sort by. -/
theorem comparisons_sound (keys : List OrderKey) (orders : List FieldOrder) :
    SoundComparisons keys orders where
  values := isTotalPreorder_of_transCmp Value.order
  equality := Value.equal_equivalence
  tied _ _ h := Value.order_of_equal h
  keyed := isTotalPreorder_of_transCmp (compareByKeys keys)
  sorted documents := ⟨sortDocuments_perm keys documents, pairwise_sortDocuments keys documents⟩
  placed _ hPaths := comparePlaces_isStrictTotalOrder orders hPaths

end DocQuery
