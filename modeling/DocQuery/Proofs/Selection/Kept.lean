import DocQuery.Proofs.Selection.Plans

/-! What every selected document satisfies. Each clause of a selection is
evaluated once, by the store or on the flattened fields, so a document that is
selected passes every clause in one of the two ways. -/
namespace DocQuery

/-- Every document of an answer passes the filters. -/
theorem FetchRequest.filters_hold_of_mem_answer {request : FetchRequest} {documents : List Document}
    {document : Document} (h : document ∈ request.answer documents) :
    ∀ filter ∈ request.filters, filter.holds document.fields = true := by
  have hResumed : document ∈ request.resume (request.ranked documents) := by
    rw [answer] at h
    cases hLimit : request.limit with
    | none => rwa [hLimit] at h
    | some limit =>
        rw [hLimit] at h
        exact List.mem_of_mem_take h
  have hRanked : document ∈ request.ranked documents := by
    rw [resume] at hResumed
    cases hStart : request.startAfter with
    | none => rwa [hStart] at hResumed
    | some start =>
        rw [hStart] at hResumed
        exact List.mem_of_mem_filter hResumed
  have hSelects := ((request.mem_ranked documents document).mp hRanked).2
  simp only [selects, Bool.and_eq_true, List.all_eq_true] at hSelects
  exact hSelects.1.2

namespace Plan

variable {store : Store} {maximum : Nat} {request : FetchRequest} {documents : List Document}

/-- What a call to the store has fetched passes the filters of the request. -/
theorem filters_hold_of_fetch {found : List Document}
    (h : resultOf (Access.call (Store.fetch request)) store = .ok found) :
    ∀ document ∈ found, ∀ filter ∈ request.filters, filter.holds document.fields = true := by
  obtain ⟨hFetch, _⟩ := call_eq_ok h
  cases hOnline : store.offline with
  | true =>
      rw [(Store.leads_fetch_of_offline hOnline request).resultOf_eq] at hFetch
      cases hFetch
  | false =>
      rw [(Store.leads_fetch hOnline request).resultOf_eq] at hFetch
      obtain rfl := Except.ok.inj hFetch
      exact fun document hDocument => FetchRequest.filters_hold_of_mem_answer hDocument

theorem filters_hold_of_fetchAll (h : resultOf (fetchAll request maximum) store = .ok documents) :
    ∀ document ∈ documents, ∀ filter ∈ request.filters, filter.holds document.fields = true := by
  obtain ⟨found, hFetch, hRest, _⟩ := exists_of_bind_eq_ok h
  obtain ⟨_, _, hFound, _⟩ := exists_of_bind_eq_ok hRest
  obtain rfl : found = documents := Except.ok.inj hFound
  exact filters_hold_of_fetch hFetch

/-- Each batch adds documents that pass the filters to those found before. -/
theorem filters_hold_of_fetchBatches {size attempts : Nat} {found : List Document}
    (hFound : ∀ document ∈ found, ∀ filter ∈ request.filters, filter.holds document.fields = true)
    (h : resultOf (fetchBatches request size maximum attempts found) store = .ok documents) :
    ∀ document ∈ documents, ∀ filter ∈ request.filters, filter.holds document.fields = true := by
  induction attempts generalizing store found with
  | zero =>
      obtain rfl : found = documents := Except.ok.inj h
      exact hFound
  | succ attempts ih =>
      obtain ⟨batch, hBatch, hRest, _⟩ := exists_of_bind_eq_ok h
      obtain ⟨_, _, hNext, _⟩ := exists_of_bind_eq_ok hRest
      have hMore : ∀ document ∈ found ++ batch, ∀ filter ∈ request.filters,
          filter.holds document.fields = true := by
        intro document hDocument
        rcases List.mem_append.mp hDocument with hOld | hNew
        · exact hFound document hOld
        · exact filters_hold_of_fetch hBatch document hNew
      by_cases hShort : batch.length < size
      · rw [if_pos hShort] at hNext
        obtain rfl : found ++ batch = documents := Except.ok.inj hNext
        exact hMore
      · rw [if_neg hShort] at hNext
        exact ih hMore hNext

/-- Whatever the strategy, what a plan fetches passes the filters of its
request. -/
theorem filters_hold_of_plan {plan : Plan} (hRequest : plan.request = .ok request)
    (hStrategy : plan.strategy ≠ .document)
    (h : resultOf (plan.fetch maximum) store = .ok documents) :
    ∀ document ∈ documents, ∀ filter ∈ request.filters, filter.holds document.fields = true := by
  rw [fetch, hRequest] at h
  cases hCase : plan.strategy with
  | document => exact absurd hCase hStrategy
  | limited limit =>
      rw [hCase] at h
      exact @filters_hold_of_fetchAll _ _ { request with limit := some limit } _ h
  | unbounded =>
      rw [hCase] at h
      exact filters_hold_of_fetchAll h
  | paged size =>
      rw [hCase] at h
      exact filters_hold_of_fetchBatches (by simp) h

theorem strategyFor_ne_document (limit page : Option Nat) : strategyFor limit page ≠ .document := by
  intro h
  cases limit with
  | some limit => cases h
  | none =>
      cases page with
      | some size => cases h
      | none => cases h

/-- Every clause that is asked of the store has a filter in the request. -/
theorem exists_filter_of_mem {clauses : List Clause} {filters : List Filter}
    (h : clauses.mapM filterOf = .ok filters) {clause : Clause} (hClause : clause ∈ clauses) :
    ∃ filter ∈ filters, filterOf clause = .ok filter := by
  have hEach := Grammar.mapM_ok h
  clear h
  induction hEach with
  | nil => cases hClause
  | cons hFirst _ ih =>
      rcases List.mem_cons.mp hClause with rfl | hRest
      · exact ⟨_, List.mem_cons_self, hFirst⟩
      · obtain ⟨filter, hFilter, hOf⟩ := ih hRest
        exact ⟨filter, List.mem_cons_of_mem _ hFilter, hOf⟩

section Selected

variable {plan : Plan} {subject : Subject} {clauses : List Clause} {order : List OrderKey}
  {limit page : Option Nat} (hMake : make subject clauses order limit page = .ok plan)
  (h : resultOf (plan.select maximum) store = .ok documents) {document : Document}
  (hDocument : document ∈ documents) {clause : Clause} (hClause : clause ∈ clauses)
include hMake h hDocument hClause

/-- A selected document passes the local clauses on its flattened fields. All
clauses are local if a single document is read. -/
theorem holds_of_select (hLocal : clause.isLocal = true ∨ subject.kind = .document) :
    clause.holds document.fields.flatten = true := by
  obtain ⟨_, found, _, rfl⟩ := select_eq_ok h
  have hPicked : document ∈ filterDocuments plan.localClauses found :=
    List.mem_mergeSort.mp hDocument
  have hHolds := List.all_eq_true.mp (List.mem_filter.mp hPicked).2
  refine hHolds clause ?_
  by_cases hKind : subject.kind = .document
  · rw [make, if_pos hKind] at hMake
    obtain rfl := Except.ok.inj hMake
    exact hClause
  · obtain ⟨rfl, _⟩ := eq_forMany_of_make hKind hMake
    exact List.mem_filter.mpr ⟨hClause, hLocal.resolve_right hKind⟩

/-- A selected document passes the other clauses as filters of the store. -/
theorem filter_holds_of_select (hRemote : clause.isLocal = false)
    (hKind : subject.kind ≠ .document) :
    ∃ filter, filterOf clause = .ok filter ∧ filter.holds document.fields = true := by
  obtain ⟨_, found, hFetch, rfl⟩ := select_eq_ok h
  have hPicked : document ∈ filterDocuments plan.localClauses found :=
    List.mem_mergeSort.mp hDocument
  obtain ⟨rfl, hSupported⟩ := eq_forMany_of_make hKind hMake
  obtain ⟨scope, filters, _, hFilters, hRequest⟩ := exists_request order hKind hSupported
  have hMember : clause ∈ clauses.filter fun clause => !clause.isLocal :=
    List.mem_filter.mpr ⟨hClause, by simp [hRemote]⟩
  obtain ⟨filter, hFilter, hFilterOf⟩ := exists_filter_of_mem hFilters hMember
  have hFetched := filters_hold_of_plan (hRequest limit page) (strategyFor_ne_document limit page)
    hFetch
  exact ⟨filter, hFilterOf, hFetched document (List.mem_filter.mp hPicked).1 filter hFilter⟩

end Selected

end Plan

end DocQuery
