import DocQuery.Proofs.Selection.Paging

/-! The order of selected documents. The store sorts by the keys that it is
given and then by path, and with a local key among them the documents are sorted
again by all keys. The second sort is stable, so either way they are in the
order of the whole list of keys and then of their paths. -/
namespace DocQuery

section Sorting

variable {α : Type} (cmp : α → α → Ordering) [Std.TransCmp cmp]

/-- A stable sort leaves what it does not tell apart in the order it had before.
The proof numbers the list: sorting by key and then by number gives the same. -/
theorem pairwise_stableSort {earlier : α → α → Prop} {items : List α} (h : items.Pairwise earlier) :
    (items.mergeSort fun a b => (cmp a b).isLE).Pairwise fun a b =>
      cmp a b = .lt ∨ cmp a b = .eq ∧ earlier a b := by
  rw [← List.mergeSort_zipIdx, List.pairwise_map]
  have hOrdered := List.pairwise_mergeSort
    (List.zipIdxLE_trans fun _ _ _ => Std.TransCmp.isLE_trans)
    (List.zipIdxLE_total (isLE_total cmp)) items.zipIdx
  have hDistinct : (items.zipIdx.mergeSort (List.zipIdxLE fun a b => (cmp a b).isLE)).Pairwise
      fun p q => p.2 ≠ q.2 := by
    have hNumbers : items.zipIdx.Pairwise fun p q => p.2 ≠ q.2 := by
      rw [← List.pairwise_map, List.zipIdx_map_snd]
      exact List.nodup_range'
    exact hNumbers.perm (List.mergeSort_perm _ _).symm Ne.symm
  refine (hOrdered.and hDistinct).imp_of_mem fun {p q} hp hq hPair => ?_
  obtain ⟨a, i⟩ := p
  obtain ⟨b, j⟩ := q
  rw [List.mem_mergeSort, List.mk_mem_zipIdx_iff_getElem?] at hp hq
  obtain ⟨hLE, hNe⟩ := hPair
  simp only [List.zipIdxLE] at hLE
  cases hStep : cmp a b with
  | lt => exact Or.inl rfl
  | gt => simp [hStep] at hLE
  | eq =>
      have hBack : (cmp b a).isLE = true := by
        rw [@Std.OrientedCmp.eq_swap _ cmp _ b a, hStep]
        rfl
      have hNumber : i < j := by
        simp only [hStep, hBack, Ordering.isLE_eq, if_true, decide_eq_true_eq] at hLE
        exact Nat.lt_of_le_of_ne hLE hNe
      obtain ⟨hi, rfl⟩ := List.getElem?_eq_some_iff.mp hp
      obtain ⟨hj, rfl⟩ := List.getElem?_eq_some_iff.mp hq
      exact Or.inr ⟨rfl, List.pairwise_iff_getElem.mp h i j hi hj hNumber⟩

end Sorting

theorem sortDocuments_nil (documents : List Document) : sortDocuments [] documents = documents := by
  apply List.mergeSort_of_pairwise
  exact List.pairwise_of_forall fun _ _ => rfl

theorem filterDocuments_nil (documents : List Document) :
    filterDocuments [] documents = documents := by
  simp [filterDocuments]

/-- One document stands before another: by the first key that tells them apart,
else by path. -/
def Precedes (keys : List OrderKey) (a b : Document) : Prop :=
  (compareByKeys keys a b).then (compare a.path b.path) = .lt

/-- The store's places are the order of the keys and then of the paths. -/
theorem comparePlaces_map (keys : List OrderKey) (a b : Document) :
    comparePlaces (keys.map fun key => ⟨key.property, key.direction⟩) a b =
      (compareByKeys keys a b).then (compare a.path b.path) := by
  induction keys with
  | nil => rfl
  | cons key rest ih =>
      rw [List.map_cons, comparePlaces, ih, FieldOrder.compare_eq, compareByKeys,
        Ordering.then_assoc]
      rfl

/-- Documents that all keys leave equal are left equal by some of them. -/
theorem compareByKeys_filter {keys : List OrderKey} {a b : Document}
    (h : compareByKeys keys a b = .eq) (chosen : OrderKey → Bool) :
    compareByKeys (keys.filter chosen) a b = .eq := by
  induction keys with
  | nil => rfl
  | cons key rest ih =>
      obtain ⟨hKey, hRest⟩ := Ordering.then_eq_eq.mp h
      rw [List.filter_cons]
      split
      · rw [compareByKeys, hKey, ih hRest]
        rfl
      · exact ih hRest

/-- Sorted by the store and, if there is a local key, once more: by all keys and
then by path. -/
theorem pairwise_precedes {order : List OrderKey} {found : List Document}
    (h : Ascending (Plan.ordersOf order) found) :
    (sortDocuments (if order.any OrderKey.isLocal then order else []) found).Pairwise
      (Precedes order) := by
  refine (pairwise_stableSort (compareByKeys _) h).imp fun {a b} hPair => ?_
  rw [Plan.ordersOf] at hPair
  rw [comparePlaces_map] at hPair
  rw [Precedes]
  by_cases hLocal : order.any OrderKey.isLocal = true
  · rw [if_pos hLocal] at hPair
    obtain hLess | ⟨hTie, hPlace⟩ := hPair
    · rw [hLess]
      rfl
    · rw [compareByKeys_filter hTie] at hPlace
      rw [hTie]
      exact hPlace
  · have hAll : order.filter (fun key => !key.isLocal) = order := by
      rw [List.filter_eq_self]
      intro key hKey
      simpa using fun hIsLocal => hLocal (List.any_eq_true.mpr ⟨key, hKey, hIsLocal⟩)
    rw [if_neg hLocal, hAll] at hPair
    obtain hLess | ⟨_, hPlace⟩ := hPair
    · cases hLess
    · exact hPlace

/-- No two documents precede each other. -/
theorem not_precedes_of_precedes {keys : List OrderKey} {a b : Document} (h : Precedes keys a b) :
    ¬ Precedes keys b a := by
  intro hBack
  rw [Precedes, ← comparePlaces_map] at h hBack
  rw [Std.OrientedCmp.gt_of_lt h] at hBack
  cases hBack

/-- What a selection that succeeds has done. -/
theorem Plan.select_ok {subject : Subject} {clauses : List Clause} {order : List OrderKey}
    {plan : Plan} (hKind : subject.kind ≠ .document)
    (hPlan : make subject clauses order none none = .ok plan) {maximum : Nat} {store : Store}
    {documents : List Document} (h : resultOf (plan.select maximum) store = .ok documents) :
    store.offline = false ∧ checkClauses (clauses.filter Clause.isLocal) = .ok () ∧
    ∃ scope filters, scopeOf subject = .ok scope ∧
      (clauses.filter fun clause => !clause.isLocal).mapM filterOf = .ok filters ∧
      documents = sortDocuments (if order.any OrderKey.isLocal then order else [])
        (filterDocuments (clauses.filter Clause.isLocal)
          (FetchRequest.ranked { scope, filters, orders := ordersOf order }
            store.documents.toList)) := by
  obtain ⟨rfl, hSupported⟩ := eq_forMany_of_make hKind hPlan
  obtain ⟨scope, filters, hScope, hFilters, hRequest⟩ := exists_request order hKind hSupported
  obtain ⟨hCheck, found, hFetch, rfl⟩ := select_eq_ok h
  obtain ⟨hOnline, _, rfl⟩ :=
    (fetch_unbounded_eq_ok_iff maximum store (hRequest none none) rfl rfl rfl).mp hFetch
  exact ⟨hOnline, hCheck, scope, filters, hScope, hFilters, rfl⟩

/-- An available store with patterns that are in order leaves one way to
fail. -/
theorem Plan.select_ok_or_tooMany {subject : Subject} {clauses : List Clause}
    {order : List OrderKey} {page : Option Nat} {plan : Plan} (hKind : subject.kind ≠ .document)
    (hPage : ∀ size ∈ page, 0 < size) (hPlan : make subject clauses order none page = .ok plan)
    {store : Store} (hOnline : store.offline = false)
    (hCheck : checkClauses (clauses.filter Clause.isLocal) = .ok ()) (maximum : Nat) :
    (∃ documents, resultOf (plan.select maximum) store = .ok documents) ∨
      ∃ n, resultOf (plan.select maximum) store = .error (.tooMany n maximum) := by
  obtain ⟨rfl, hSupported⟩ := eq_forMany_of_make hKind hPlan
  obtain ⟨scope, filters, _, _, hRequest⟩ := exists_request order hKind hSupported
  have hSelect := leads_select hCheck
    (leads_of ((forMany subject clauses order none page).fetch maximum) store)
  rw [hSelect.resultOf_eq]
  cases page with
  | none =>
      obtain ⟨finish, hFew, hMany⟩ := leads_fetch_unbounded maximum hOnline
        (hRequest none none) rfl rfl rfl
      by_cases hMaximum : maximum < FetchRequest.matching
          { scope, filters, orders := ordersOf order } store
      · rw [(hMany hMaximum).resultOf_eq]
        exact Or.inr ⟨_, rfl⟩
      · rw [(hFew (Nat.le_of_not_lt hMaximum)).resultOf_eq]
        exact Or.inl ⟨_, rfl⟩
  | some size =>
      obtain ⟨result, finish, _, hFetch, hFew, hMany⟩ := leads_fetch_paged maximum hOnline
        (hRequest none (some size)) (hPage size rfl) rfl
      rw [hFetch.resultOf_eq]
      by_cases hMaximum : maximum < FetchRequest.matching
          { scope, filters, orders := ordersOf order } store
      · obtain ⟨n, rfl⟩ := hMany hMaximum
        exact Or.inr ⟨n, rfl⟩
      · rw [(hFew (Nat.le_of_not_lt hMaximum)).1]
        exact Or.inl ⟨_, rfl⟩

/-- A clause holds of a document, for the store or, if it is local, on the
flattened fields. -/
def Clause.Passes (clause : Clause) (document : Document) : Prop :=
  if clause.isLocal then clause.holds document.fields.flatten = true
  else ∃ filter, Plan.filterOf clause = .ok filter ∧ filter.holds document.fields = true

/-- A document is where a select looks and passes all of its clauses. -/
def Select.Passes (q : Select) (document : Document) : Prop :=
  (∃ scope, Plan.scopeOf q.subject = .ok scope ∧ scope.contains document.path = true) ∧
    ∀ clause ∈ q.clauses, clause.Passes document

theorem all_filters_iff {clauses : List Clause} {filters : List Filter}
    (h : clauses.mapM Plan.filterOf = .ok filters) (fields : Fields) :
    (filters.all fun filter => filter.holds fields) = true ↔
      ∀ clause ∈ clauses, ∃ filter, Plan.filterOf clause = .ok filter ∧
        filter.holds fields = true := by
  induction clauses generalizing filters with
  | nil =>
      cases h
      simp
  | cons clause rest ih =>
      rw [List.mapM_cons] at h
      cases hFilter : Plan.filterOf clause with
      | error fault =>
          rw [hFilter] at h
          cases h
      | ok filter =>
          cases hRest : rest.mapM Plan.filterOf with
          | error fault =>
              rw [hFilter, hRest] at h
              cases h
          | ok others =>
              rw [hFilter, hRest] at h
              cases h
              simp [List.all_cons, ih hRest, hFilter]

/-- A select takes the documents that pass and have the fields that the store
orders by. -/
theorem Select.mem_found_iff {q : Select} {scope : Scope} {filters : List Filter}
    (hScope : Plan.scopeOf q.subject = .ok scope)
    (hFilters : (q.clauses.filter fun clause => !clause.isLocal).mapM Plan.filterOf = .ok filters)
    (document : Document) :
    (FetchRequest.selects { scope, filters, orders := Plan.ordersOf q.order } document &&
        (q.clauses.filter Clause.isLocal).all fun clause =>
          clause.holds document.fields.flatten) = true ↔
      q.Passes document ∧ ∀ key ∈ q.order, key.isLocal = false →
        (document.fields.field? key.property).isSome = true := by
  have hOrders : ((Plan.ordersOf q.order).all fun order =>
      (document.fields.field? order.field).isSome) = true ↔
        ∀ key ∈ q.order, key.isLocal = false →
          (document.fields.field? key.property).isSome = true := by
    rw [Plan.ordersOf, List.all_map, List.all_eq_true]
    simp only [List.mem_filter, Bool.not_eq_true', and_imp, Function.comp_apply]
  have hScopes : (∃ scope, Plan.scopeOf q.subject = .ok scope ∧
      scope.contains document.path = true) ↔ scope.contains document.path = true := by
    simp [hScope]
  have hClauses : (∀ clause ∈ q.clauses, clause.Passes document) ↔
      (filters.all fun filter => filter.holds document.fields) = true ∧
        ((q.clauses.filter Clause.isLocal).all fun clause =>
          clause.holds document.fields.flatten) = true := by
    rw [all_filters_iff hFilters, List.all_eq_true]
    constructor
    · intro hAll
      constructor
      · intro clause hClause
        obtain ⟨hMember, hRemote⟩ := List.mem_filter.mp hClause
        have hPasses := hAll clause hMember
        rwa [Clause.Passes, if_neg (by simpa using hRemote)] at hPasses
      · intro clause hClause
        obtain ⟨hMember, hLocal⟩ := List.mem_filter.mp hClause
        have hPasses := hAll clause hMember
        rwa [Clause.Passes, if_pos hLocal] at hPasses
    · rintro ⟨hRemote, hLocal⟩ clause hMember
      rw [Clause.Passes]
      split
      · rename_i hCase
        exact hLocal clause (List.mem_filter.mpr ⟨hMember, hCase⟩)
      · rename_i hCase
        exact hRemote clause (List.mem_filter.mpr ⟨hMember, by simpa using hCase⟩)
  rw [FetchRequest.selects, Bool.and_eq_true, Bool.and_eq_true, Bool.and_eq_true, hOrders,
    Select.Passes, hScopes, hClauses]
  constructor
  · rintro ⟨⟨⟨hContains, hRemote⟩, hFields⟩, hLocal⟩
    exact ⟨⟨hContains, hRemote, hLocal⟩, hFields⟩
  · rintro ⟨⟨hContains, hRemote, hLocal⟩, hFields⟩
    exact ⟨⟨⟨hContains, hRemote⟩, hFields⟩, hLocal⟩

/-- Ranking, filtering and sorting again leave the documents that are selected
and no others. -/
theorem perm_selected (request : FetchRequest) (clauses : List Clause) (keys : List OrderKey)
    (documents : List Document) :
    (sortDocuments keys (filterDocuments clauses (request.ranked documents))).Perm
      (documents.filter fun document => request.selects document &&
        clauses.all fun clause => clause.holds document.fields.flatten) := by
  refine (List.mergeSort_perm _ _).trans ?_
  have hFound := (request.ranked_perm documents).filter fun document =>
    clauses.all fun clause => clause.holds document.fields.flatten
  rw [List.filter_filter] at hFound
  refine hFound.trans (List.Perm.of_eq (List.filter_congr fun document _ => ?_))
  exact Bool.and_comm _ _

/-- Two selects that differ in the markers of their keys only. -/
def SameKeys (first second : List OrderKey) : Prop :=
  first.map (fun key => (key.property, key.direction)) =
    second.map fun key => (key.property, key.direction)

/-- Keys that differ in their markers compare alike. -/
theorem compareByKeys_eq_of_sameKeys {first second : List OrderKey} (h : SameKeys first second)
    (a b : Document) : compareByKeys first a b = compareByKeys second a b := by
  induction first generalizing second with
  | nil =>
      rw [List.map_eq_nil_iff.mp h.symm]
  | cons key rest ih =>
      cases second with
      | nil => simp [SameKeys] at h
      | cons other more =>
          obtain ⟨hKey, hRest⟩ := List.cons.inj h
          obtain ⟨hProperty, hDirection⟩ := Prod.mk.inj hKey
          rw [compareByKeys, compareByKeys, ih hRest, OrderKey.compare, OrderKey.compare, hProperty,
            hDirection]

theorem forall_property_of_sameKeys {first second : List OrderKey} (h : SameKeys first second)
    (good : String → Prop) (hGood : ∀ key ∈ first, good key.property) :
    ∀ key ∈ second, good key.property := by
  intro key hKey
  have hMember : (key.property, key.direction) ∈
      first.map fun key => (key.property, key.direction) :=
    h ▸ List.mem_map_of_mem hKey
  obtain ⟨other, hOther, hSame⟩ := List.mem_map.mp hMember
  exact (Prod.mk.inj hSame).1 ▸ hGood other hOther

/-- A selection that succeeds was planned and fetched from a store that is
online. -/
theorem Select.selection_ok {q : Select} (hKind : q.subject.kind ≠ .document)
    (hLimit : q.limit = none) (hPage : ∀ size ∈ q.page, 0 < size) {maximum : Nat} {store : Store}
    {documents : List Document} (h : resultOf (q.selection maximum) store = .ok documents) :
    store.offline = false ∧ checkClauses (q.clauses.filter Clause.isLocal) = .ok () ∧
    ∃ scope filters, Plan.scopeOf q.subject = .ok scope ∧
      (q.clauses.filter fun clause => !clause.isLocal).mapM Plan.filterOf = .ok filters ∧
      documents = sortDocuments (if q.order.any OrderKey.isLocal then q.order else [])
        (filterDocuments (q.clauses.filter Clause.isLocal)
          (FetchRequest.ranked { scope, filters, orders := Plan.ordersOf q.order }
            store.documents.toList)) := by
  obtain ⟨subject, clauses, projection, limit, page, order, group, aggregate, output⟩ := q
  subst hLimit
  have hSingle := (resultOf_selection_page ⟨subject, clauses, projection, none, page, order, group,
    aggregate, output⟩ hPage maximum store documents).mp h
  rw [selection, Select.plan] at hSingle
  cases hPlan : Plan.make subject clauses order none none with
  | error fault =>
      rw [hPlan] at hSingle
      cases hSingle
  | ok plan =>
      rw [hPlan] at hSingle
      exact Plan.select_ok hKind hPlan hSingle

/-- The documents of a selection stand in the order of all keys and then of
their paths. -/
theorem Select.pairwise_selection {q : Select} (hKind : q.subject.kind ≠ .document)
    (hLimit : q.limit = none) (hPage : ∀ size ∈ q.page, 0 < size) {maximum : Nat} {store : Store}
    {documents : List Document} (h : resultOf (q.selection maximum) store = .ok documents) :
    documents.Pairwise (Precedes q.order) := by
  obtain ⟨_, _, scope, filters, _, _, rfl⟩ := selection_ok hKind hLimit hPage h
  have hRanked := FetchRequest.ascending_ranked
    { scope, filters, orders := Plan.ordersOf q.order } store.documents.paths_distinct
  exact pairwise_precedes (List.Pairwise.filter _ hRanked)

/-- Without fields that are missing, markers change nothing about a
selection. -/
theorem Select.selection_eq_of_sameKeys {q : Select} (hKind : q.subject.kind ≠ .document)
    (hLimit : q.limit = none) (hPage : ∀ size ∈ q.page, 0 < size) {order : List OrderKey}
    (hKeys : SameKeys q.order order) {maximum : Nat} {store : Store}
    (hComplete : ∀ document ∈ store.documents.toList, q.Passes document →
      ∀ key ∈ q.order, (document.fields.field? key.property).isSome = true)
    {first second : List Document} (hFirst : resultOf (q.selection maximum) store = .ok first)
    (hSecond : resultOf (selection { q with order } maximum) store = .ok second) :
    first = second := by
  have hOrdered := pairwise_selection hKind hLimit hPage hFirst
  have hOther := pairwise_selection (q := { q with order }) hKind hLimit hPage hSecond
  have hSame : second.Pairwise (Precedes q.order) := by
    refine hOther.imp fun {a b} hPair => ?_
    rwa [Precedes, compareByKeys_eq_of_sameKeys hKeys]
  obtain ⟨_, _, scope, filters, hScope, hFilters, rfl⟩ := selection_ok hKind hLimit hPage hFirst
  obtain ⟨_, _, otherScope, otherFilters, hOtherScope, hOtherFilters, rfl⟩ :=
    selection_ok (q := { q with order }) hKind hLimit hPage hSecond
  obtain rfl := Except.ok.inj (hScope.symm.trans hOtherScope)
  obtain rfl := Except.ok.inj (hFilters.symm.trans hOtherFilters)
  refine List.Perm.eq_of_pairwise (fun a b _ _ hBefore hBack => ?_) hOrdered hSame ?_
  · exact absurd hBack (not_precedes_of_precedes hBefore)
  · refine (perm_selected _ _ _ _).trans (List.Perm.trans (List.Perm.of_eq ?_)
      (perm_selected _ _ _ _).symm)
    refine List.filter_congr fun document hDocument => Bool.eq_iff_iff.mpr ?_
    have hFound := mem_found_iff hScope hFilters document
    have hOtherFound := mem_found_iff (q := { q with order }) hScope hFilters document
    refine hFound.trans (Iff.trans ?_ hOtherFound.symm)
    have hFields (hPasses : q.Passes document) := hComplete document hDocument hPasses
    have hOtherFields (hPasses : q.Passes document) :=
      forall_property_of_sameKeys hKeys
        (fun property => (document.fields.field? property).isSome = true) (hFields hPasses)
    exact ⟨fun h => ⟨h.1, fun key hKey _ => hOtherFields h.1 key hKey⟩,
      fun h => ⟨h.1, fun key hKey _ => hFields h.1 key hKey⟩⟩

/-- Whether a select is planned does not depend on its order. -/
theorem Plan.make_ok_of_make_ok {subject : Subject} {clauses : List Clause}
    {order other : List OrderKey} {limit page : Option Nat} {plan : Plan}
    (hKind : subject.kind ≠ .document) (h : make subject clauses order limit page = .ok plan) :
    ∃ plan, make subject clauses other limit page = .ok plan := by
  rw [make, if_neg hKind] at h ⊢
  split at h
  · cases h
  · rename_i hCollection
    rw [if_neg hCollection]
    dsimp only [forMany] at h ⊢
    split at h
    · cases h
    · exact ⟨_, rfl⟩

/-- With other markers a select that succeeds can only have become too large. -/
theorem Select.selection_ok_or_tooMany {q : Select} (hKind : q.subject.kind ≠ .document)
    (hLimit : q.limit = none) (hPage : ∀ size ∈ q.page, 0 < size) (order : List OrderKey)
    {maximum : Nat} {store : Store} {documents : List Document}
    (h : resultOf (q.selection maximum) store = .ok documents) :
    (∃ others, resultOf (selection { q with order } maximum) store = .ok others) ∨
      ∃ n, resultOf (selection { q with order } maximum) store = .error (.tooMany n maximum) := by
  obtain ⟨hOnline, hCheck, _⟩ := selection_ok hKind hLimit hPage h
  rw [selection, Select.plan] at h ⊢
  cases hPlan : Plan.make q.subject q.clauses q.order q.limit q.page with
  | error fault =>
      rw [hPlan] at h
      cases h
  | ok plan =>
      obtain ⟨other, hOther⟩ := @Plan.make_ok_of_make_ok _ _ _ order _ _ _ hKind hPlan
      rw [hOther]
      rw [hLimit] at hOther
      exact Plan.select_ok_or_tooMany hKind hPage hOther hOnline hCheck maximum

/-- The marker on order keys never changes the order. A selection stands in the
order of the whole list of keys and then of the paths, whichever keys are local,
and each document is there once; and where no document that passes lacks an
ordered field, selects with other markers give the same, unless they would fetch
too much. -/
theorem Select.markers_keep_order :
    (∀ (q : Select) (store : Store) (maximum : Nat) (documents : List Document),
      q.subject.kind ≠ .document → q.limit = none → (∀ size ∈ q.page, 0 < size) →
      resultOf (q.selection maximum) store = .ok documents →
      documents.Pairwise (fun a b =>
        (compareByKeys q.order a b).then (compare a.path b.path) = .lt) ∧
        (documents.map Document.path).Nodup) ∧
    ∀ (q : Select) (order : List OrderKey) (store : Store) (maximum : Nat)
      (documents : List Document),
      q.subject.kind ≠ .document → q.limit = none → (∀ size ∈ q.page, 0 < size) →
      order.map (fun key => (key.property, key.direction)) =
        q.order.map (fun key => (key.property, key.direction)) →
      (∀ document ∈ store.documents.toList, q.Passes document →
        ∀ key ∈ q.order, (document.fields.field? key.property).isSome = true) →
      resultOf (q.selection maximum) store = .ok documents →
      resultOf (selection { q with order } maximum) store = .ok documents ∨
        ∃ n, resultOf (selection { q with order } maximum) store = .error (.tooMany n maximum) := by
  refine ⟨fun q store maximum documents hKind hLimit hPage h => ⟨?_, ?_⟩, ?_⟩
  · exact pairwise_selection hKind hLimit hPage h
  · obtain ⟨_, _, scope, filters, _, _, rfl⟩ := selection_ok hKind hLimit hPage h
    rw [List.Nodup, List.pairwise_map]
    exact (store.documents.paths_distinct.filter _).perm (perm_selected _ _ _ _).symm Ne.symm
  · intro q order store maximum documents hKind hLimit hPage hKeys hComplete h
    obtain ⟨others, hOthers⟩ | hMany := selection_ok_or_tooMany hKind hLimit hPage order h
    · rw [selection_eq_of_sameKeys hKind hLimit hPage hKeys.symm hComplete h hOthers]
      exact Or.inl hOthers
    · exact Or.inr hMany

theorem Store.toList_tied : Store.tied.documents.toList =
    [⟨"users/a", [("age", .number (.real (Double.ofInt 7)))]⟩,
      ⟨"users/b", [("age", .number (.integer 7))]⟩] := by
  have hLess : "users/a" < "users/b" := by decide +kernel
  simp only [Store.tied, Documents.put, Documents.empty, Documents.putInOrder, if_pos hLess]

/-- Neither sort moves a document, since they have the same age. -/
theorem Store.resultOf_selection_tied (store : Store) (hOnline : store.offline = false)
    (hDocuments : store.documents = Store.tied.documents) {order : List OrderKey}
    (hOrder : order = [] ∨ order = [⟨"age", .desc, true⟩]) :
    resultOf (Select.selection ⟨⟨"users", .collection⟩, [], .all, none, none, order, none, none,
      none⟩ 5) store = .ok Store.tied.documents.toList := by
  have hCollection : Path.isDocument "users" = false := by decide +kernel
  have hPlan : Plan.make ⟨"users", .collection⟩ [] order none none =
      .ok (Plan.forMany ⟨"users", .collection⟩ [] order none none) := by
    rw [Plan.make, if_neg (by simp), if_neg (by simp [hCollection])]
    rfl
  have hRequest : (Plan.forMany ⟨"users", .collection⟩ [] order none none).request =
      .ok { scope := .collection "users" } := by
    rcases hOrder with rfl | rfl
    · rfl
    · rfl
  have hMatching : FetchRequest.matching { scope := .collection "users" } store ≤ 5 := by
    apply Nat.le_trans (FetchRequest.matching_le_size _ _)
    rw [hDocuments, Documents.size, Store.toList_tied]
    simp
  have hFilter : Store.tied.documents.toList.filter
      (FetchRequest.selects { scope := .collection "users" }) = Store.tied.documents.toList := by
    rw [Store.toList_tied]
    rfl
  have hTie : Value.order (.number (.integer 7)) (.number (.real (Double.ofInt 7))) = .eq := by
    decide +kernel
  have hLess : compare "users/a" "users/b" = .lt := by decide +kernel
  have hRanked : Store.tied.documents.toList.Pairwise fun a b =>
      (comparePlaces [] a b).isLE = true := by
    rw [Store.toList_tied]
    simp [comparePlaces, hLess]
  have hSorted : Store.tied.documents.toList.Pairwise fun a b =>
      (compareByKeys (Plan.forMany ⟨"users", .collection⟩ [] order none none).localOrder a b).isLE =
        true := by
    rw [Store.toList_tied]
    rcases hOrder with rfl | rfl
    · simp [Plan.forMany, compareByKeys]
    · simp only [List.pairwise_pair]
      decide +kernel
  obtain ⟨finish, hFew, _⟩ := Plan.leads_fetch_unbounded 5 hOnline hRequest rfl rfl rfl
  have hSelect := Plan.leads_select rfl (hFew hMatching)
  rw [Select.selection, Select.plan, ((leads_planned hPlan store).bind hSelect).resultOf_eq,
    Except.map, FetchRequest.ranked, hDocuments, hFilter, List.mergeSort_of_pairwise hRanked]
  exact congrArg Except.ok (List.mergeSort_of_pairwise hSorted)

/-- Two documents of one age, which are put in the order of their paths. -/
theorem Select.markers_keep_order_tied :
    Store.tied.documents.toList.Pairwise (fun a b =>
      (compareByKeys [⟨"age", .desc, true⟩] a b).then (compare a.path b.path) = .lt) ∧
    (resultOf (Select.selection ⟨⟨"users", .collection⟩, [], .all, none, none,
      [⟨"age", .desc, false⟩], none, none, none⟩ 5) Store.tied =
        .ok Store.tied.documents.toList ∨
      ∃ n, resultOf (Select.selection ⟨⟨"users", .collection⟩, [], .all, none, none,
        [⟨"age", .desc, false⟩], none, none, none⟩ 5) Store.tied = .error (.tooMany n 5)) := by
  constructor
  · exact (markers_keep_order.1 _ Store.tied 5 _ (by simp) rfl (by simp)
      (Store.resultOf_selection_tied Store.tied rfl rfl (Or.inr rfl))).1
  · apply markers_keep_order.2 _ [⟨"age", .desc, false⟩] Store.tied 5 _ (by simp) rfl
      (by simp) rfl _
      (Store.resultOf_selection_tied Store.tied rfl rfl (Or.inr rfl))
    intro document hDocument _ key hKey
    rw [Store.toList_tied] at hDocument
    simp only [List.mem_cons, List.not_mem_nil, or_false] at hDocument hKey
    subst hKey
    rcases hDocument with rfl | rfl
    · rfl
    · rfl

end DocQuery
