import DocQuery.Proofs.Value.Order
import DocQuery.Selection.Arrangement
import DocQuery.Store.Documents
import DocQuery.Store.Request

/-! The order in which the store gives documents. No two documents of different
paths are at the same place, so the documents after a given one are exactly
those behind it, and batches that each begin after the last document before them
make up the whole answer. -/
namespace DocQuery

/-- Of two things one is not after the other. -/
theorem isLE_total {α : Type} (cmp : α → α → Ordering) [Std.OrientedCmp cmp] (a b : α) :
    ((cmp a b).isLE || (cmp b a).isLE) = true := by
  rw [@Std.OrientedCmp.eq_swap _ cmp _ b a]
  cases cmp a b <;> rfl

/-- An order of values by a key, seen in a direction, is total again. -/
instance (direction : Direction) (key : Document → Value) :
    Std.TransCmp fun a b => direction.apply ((key a).order (key b)) where
  eq_swap {a b} := by
    rw [Value.order_swap (key b) (key a)]
    cases direction <;> rfl
  isLE_trans {a b c} hFirst hSecond := by
    cases direction with
    | asc =>
        rw [Direction.apply] at hFirst hSecond ⊢
        exact Std.TransCmp.isLE_trans hFirst hSecond
    | desc =>
        rw [Direction.apply, ← Value.order_swap] at hFirst hSecond ⊢
        exact Std.TransCmp.isLE_trans hSecond hFirst

namespace FieldOrder

/-- Comparing in the other order of arguments is the same as turning the result
around. -/
theorem compare_eq (order : FieldOrder) (a b : Document) :
    order.compare a b = OrderKey.compare ⟨order.field, order.direction, false⟩ a b := by
  obtain ⟨field, direction⟩ := order
  cases direction with
  | asc => rfl
  | desc => exact Value.order_swap _ _

instance (order : FieldOrder) : Std.TransCmp order.compare := by
  have hCompare : order.compare = OrderKey.compare ⟨order.field, order.direction, false⟩ := by
    funext a b
    exact order.compare_eq a b
  rw [hCompare]
  unfold OrderKey.compare
  infer_instance

end FieldOrder

instance (key : OrderKey) : Std.TransCmp key.compare := by
  unfold OrderKey.compare
  infer_instance

theorem comparePlaces_cons (order : FieldOrder) (rest : List FieldOrder) :
    comparePlaces (order :: rest) = compareLex order.compare (comparePlaces rest) :=
  rfl

theorem compareByKeys_cons (key : OrderKey) (rest : List OrderKey) :
    compareByKeys (key :: rest) = compareLex key.compare (compareByKeys rest) :=
  rfl

instance (orders : List FieldOrder) : Std.TransCmp (comparePlaces orders) := by
  induction orders with
  | nil =>
      have hPath : comparePlaces [] = compareOn Document.path := by
        funext a b
        rfl
      rw [hPath]
      infer_instance
  | cons order rest ih =>
      rw [comparePlaces_cons]
      infer_instance

instance (keys : List OrderKey) : Std.TransCmp (compareByKeys keys) := by
  induction keys with
  | nil => exact { eq_swap := rfl, isLE_trans := fun _ _ => rfl }
  | cons key rest ih =>
      rw [compareByKeys_cons]
      infer_instance

/-- Only one path is at a place. -/
theorem path_eq_of_comparePlaces {orders : List FieldOrder} {a b : Document}
    (h : comparePlaces orders a b = .eq) : a.path = b.path := by
  induction orders with
  | nil => exact Std.LawfulEqOrd.eq_of_compare h
  | cons order rest ih => exact ih (Ordering.then_eq_eq.mp h).2

/-- Documents one after the other at different places. -/
def Ascending (orders : List FieldOrder) (documents : List Document) : Prop :=
  documents.Pairwise fun a b => comparePlaces orders a b = .lt

/-- There is one document at each path. -/
theorem Documents.paths_distinct (documents : Documents) :
    documents.toList.Pairwise fun a b => a.path ≠ b.path := by
  refine documents.ascending.imp fun {a b} hBefore hSame => ?_
  rw [hSame] at hBefore
  exact String.lt_irrefl _ hBefore

/-- Behind a document are exactly those that follow it in the order. -/
theorem Ascending.filter_after {orders : List FieldOrder} {front back : List Document}
    {last : Document} (h : Ascending orders (front ++ last :: back)) :
    (front ++ last :: back).filter (fun document => comparePlaces orders document last == .gt) =
      back := by
  obtain ⟨_, hBack, hFront⟩ := List.pairwise_append.mp h
  have hSelf : comparePlaces orders last last = .eq := Std.ReflCmp.compare_self
  have hBefore : ∀ document ∈ front,
      ¬ (comparePlaces orders document last == .gt) = true := by
    intro document hDocument
    simp [hFront document hDocument last List.mem_cons_self]
  have hAfter : ∀ document ∈ back, (comparePlaces orders document last == .gt) = true := by
    intro document hDocument
    rw [Std.OrientedCmp.gt_of_lt ((List.pairwise_cons.mp hBack).1 document hDocument)]
    rfl
  rw [List.filter_append, List.filter_eq_nil_iff.mpr hBefore,
    List.filter_cons_of_neg (by simp [hSelf]), List.filter_eq_self.mpr hAfter, List.nil_append]

/-- Documents of different paths in order are at different places. -/
theorem ascending_of_distinct {orders : List FieldOrder} {documents : List Document}
    (hOrdered : documents.Pairwise fun a b => (comparePlaces orders a b).isLE = true)
    (hDistinct : documents.Pairwise fun a b => a.path ≠ b.path) : Ascending orders documents := by
  refine (hOrdered.and hDistinct).imp fun {a b} hPair => ?_
  cases hStep : comparePlaces orders a b with
  | lt => rfl
  | eq => exact absurd (path_eq_of_comparePlaces hStep) hPair.2
  | gt => simp [hStep] at hPair

/-- Ascending documents are all different. -/
theorem Ascending.nodup {orders : List FieldOrder} {documents : List Document}
    (h : Ascending orders documents) : documents.Nodup := by
  refine h.imp fun {a b} hBefore hSame => ?_
  have hSelf : comparePlaces orders b b = .eq := Std.ReflCmp.compare_self
  rw [hSame, hSelf] at hBefore
  cases hBefore

/-- The order leaves no choice of how to list the same documents. -/
theorem Ascending.eq_of_perm {orders : List FieldOrder} {documents others : List Document}
    (h : Ascending orders documents) (hOthers : Ascending orders others)
    (hPerm : documents.Perm others) : documents = others := by
  refine hPerm.eq_of_pairwise (fun a b _ _ hBefore hAfter => ?_) h hOthers
  rw [Std.OrientedCmp.gt_of_lt hBefore] at hAfter
  cases hAfter

namespace FetchRequest

/-- Ranking loses nothing that is selected and adds nothing. -/
theorem ranked_perm (request : FetchRequest) (documents : List Document) :
    (request.ranked documents).Perm (documents.filter request.selects) :=
  List.mergeSort_perm _ _

theorem mem_ranked (request : FetchRequest) (documents : List Document) (document : Document) :
    document ∈ request.ranked documents ↔ document ∈ documents ∧ request.selects document = true :=
  (request.ranked_perm documents).mem_iff.trans List.mem_filter

/-- Ranked documents are in the order of their places. -/
theorem ordered_ranked (request : FetchRequest) (documents : List Document) :
    (request.ranked documents).Pairwise fun a b =>
      (comparePlaces request.orders a b).isLE = true :=
  List.pairwise_mergeSort (fun _ _ _ => Std.TransCmp.isLE_trans)
    (isLE_total (comparePlaces request.orders)) _

theorem distinct_ranked (request : FetchRequest) {documents : List Document}
    (hPaths : documents.Pairwise fun a b => a.path ≠ b.path) :
    (request.ranked documents).Pairwise fun a b => a.path ≠ b.path :=
  (hPaths.filter request.selects).perm (request.ranked_perm documents).symm Ne.symm

/-- The documents of a store are ranked without ties. -/
theorem ascending_ranked (request : FetchRequest) {documents : List Document}
    (hPaths : documents.Pairwise fun a b => a.path ≠ b.path) :
    Ascending request.orders (request.ranked documents) :=
  ascending_of_distinct (request.ordered_ranked documents) (request.distinct_ranked hPaths)

/-- To resume after the first documents is to leave them out. -/
theorem resume_take (request : FetchRequest) {documents : List Document}
    (h : Ascending request.orders documents) (count : Nat) :
    resume { request with startAfter := (documents.take count).getLast? } documents =
      documents.drop count := by
  cases hLast : (documents.take count).getLast? with
  | none =>
      have hNone : documents.take count = [] := List.getLast?_eq_none_iff.mp hLast
      have hAll := List.take_append_drop count documents
      rw [hNone, List.nil_append] at hAll
      exact hAll.symm
  | some last =>
      obtain ⟨front, hFront⟩ := List.getLast?_eq_some_iff.mp hLast
      have hSplit : documents = front ++ last :: documents.drop count := by
        conv => lhs; rw [← List.take_append_drop count documents, hFront, List.append_assoc]
        rfl
      simp only [resume]
      rw [hSplit] at h
      have hFilter := h.filter_after
      rwa [← hSplit] at hFilter

/-- The answer to a request for the next batch after the first documents. -/
theorem answer_batch (request : FetchRequest) {documents : List Document}
    (hPaths : documents.Pairwise fun a b => a.path ≠ b.path) (size count : Nat) :
    answer
        { request with
          limit := some size
          startAfter := ((request.ranked documents).take count).getLast? } documents =
      ((request.ranked documents).drop count).take size := by
  have hResume := request.resume_take (request.ascending_ranked hPaths) count
  exact congrArg (List.take size) hResume

end FetchRequest

end DocQuery
