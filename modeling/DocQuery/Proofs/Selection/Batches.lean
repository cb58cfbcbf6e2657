import DocQuery.Proofs.Execution.Access
import DocQuery.Proofs.Store.Ranking

/-! What a plan fetches and selects. After so many full batches the loop has
found as many of the first documents in order, so each batch takes up where the
one before it ended, and the loop ends at the first batch that is not full,
which may be empty. -/
namespace DocQuery

/-- The number of documents that a request asks for: those in its scope that
pass every filter and have every ordered field. -/
def FetchRequest.matching (request : FetchRequest) (store : Store) : Nat :=
  (store.documents.toList.filter request.selects).length

/-- As many documents are ranked as match. -/
theorem FetchRequest.length_ranked (request : FetchRequest) (store : Store) :
    (request.ranked store.documents.toList).length = request.matching store :=
  (request.ranked_perm _).length_eq

theorem FetchRequest.matching_le_size (request : FetchRequest) (store : Store) :
    request.matching store ≤ store.documents.size :=
  List.length_filter_le _ _

namespace Plan

variable {request : FetchRequest} {size maximum : Nat} {store : Store}

/-- As long as full batches are left, the next one is full and leaves one
fewer. -/
theorem full_batch {total count rounds : Nat} (hSize : 0 < size)
    (h : (total - count) / size = rounds + 1) :
    count + size ≤ total ∧ (total - (count + size)) / size = rounds := by
  have hPositive : 0 < (total - count) / size := by omega
  have hLe : size ≤ total - count := (Nat.div_pos_iff.mp hPositive).2
  have hSub := Nat.div_eq_sub_div hSize hLe
  rw [h, ← Nat.sub_add_eq] at hSub
  exact ⟨by omega, (Nat.succ.inj hSub).symm⟩

section Attempt

variable {found batch : List Document} {middle : Store}

/-- An attempt of the loop whose batch is one too many. -/
theorem leads_attempt_tooMany (maximum : Nat)
    (hBatch : Leads (Access.call (Store.fetch
      { request with limit := some size, startAfter := found.getLast? })) store (.ok batch) middle)
    (hMaximum : maximum < (found ++ batch).length) (attempts : Nat) :
    Leads (fetchBatches request size maximum (attempts + 1) found) store
      (.error (.tooMany (found ++ batch).length maximum)) middle :=
  hBatch.bind (leads_requireAtMost_of_lt hMaximum middle).bind_error

/-- An attempt of the loop whose batch is the last. -/
theorem leads_attempt_last (maximum : Nat)
    (hBatch : Leads (Access.call (Store.fetch
      { request with limit := some size, startAfter := found.getLast? })) store (.ok batch) middle)
    (hMaximum : (found ++ batch).length ≤ maximum) (hLast : batch.length < size)
    (attempts : Nat) :
    Leads (fetchBatches request size maximum (attempts + 1) found) store (.ok (found ++ batch))
      middle := by
  refine hBatch.bind ((leads_requireAtMost hMaximum middle).bind ?_)
  rw [if_pos hLast]
  exact leads_pure _ middle

/-- An attempt of the loop whose batch is full goes on with the next. -/
theorem leads_attempt_full {result : Except QueryError (List Document)} {finish : Store}
    (hBatch : Leads (Access.call (Store.fetch
      { request with limit := some size, startAfter := found.getLast? })) store (.ok batch) middle)
    (hMaximum : (found ++ batch).length ≤ maximum) (hFull : ¬ batch.length < size)
    {attempts : Nat}
    (hNext : Leads (fetchBatches request size maximum attempts (found ++ batch)) middle result
      finish) :
    Leads (fetchBatches request size maximum (attempts + 1) found) store result finish := by
  refine hBatch.bind ((leads_requireAtMost hMaximum middle).bind ?_)
  rw [if_neg hFull]
  exact hNext

end Attempt

/-- One batch more: after the first documents come those right behind them. -/
theorem leads_nextBatch (request : FetchRequest) (hOnline : store.offline = false)
    (size count : Nat) :
    ∃ finish, Leads
      (Access.call (Store.fetch
        { request with
          limit := some size
          startAfter := ((request.ranked store.documents.toList).take count).getLast? }))
      store (.ok (((request.ranked store.documents.toList).drop count).take size)) finish ∧
      finish.documents = store.documents ∧ finish.offline = false ∧
      finish.calls.fetches = store.calls.fetches + 1 := by
  have hFetch := (Store.leads_fetch hOnline { request with
    limit := some size
    startAfter := ((request.ranked store.documents.toList).take count).getLast? }).call
  rw [request.answer_batch store.documents.paths_distinct] at hFetch
  exact ⟨_, hFetch, rfl, hOnline, rfl⟩

/-- Where the loop ends that has found so many of the first documents and has so
many full batches left. It makes one fetch for each of these and one for the
batch that is not full, and with more attempts than that it does the same. -/
structure RunsBatches (request : FetchRequest) (size maximum count rounds : Nat) (store : Store)
    (result : Except QueryError (List Document)) (finish : Store) : Prop where
  leads : ∀ attempts, rounds < attempts → Leads
    (fetchBatches request size maximum attempts
      ((request.ranked store.documents.toList).take count)) store result finish
  few : request.matching store ≤ maximum →
    result = .ok (request.ranked store.documents.toList) ∧
      finish.calls.fetches = store.calls.fetches + rounds + 1
  many : maximum < request.matching store → ∃ fetched, result = .error (.tooMany fetched maximum)

variable {count rounds : Nat}

/-- The first documents and those of a full batch behind them. -/
theorem length_take_add (h : count + size ≤ request.matching store) :
    ((request.ranked store.documents.toList).take count ++
      ((request.ranked store.documents.toList).drop count).take size).length = count + size := by
  have hLength := request.length_ranked store
  rw [← List.take_add, List.length_take]
  omega

/-- A batch that is not full is the last one, and everything has been found. -/
theorem runsBatches_last (maximum : Nat) (hOnline : store.offline = false)
    (hRest : request.matching store - count < size) :
    ∃ result finish, RunsBatches request size maximum count 0 store result finish := by
  obtain ⟨middle, hBatch, _, _, hFetches⟩ := leads_nextBatch request hOnline size count
  have hLength := request.length_ranked store
  have hFound : (request.ranked store.documents.toList).take count ++
      ((request.ranked store.documents.toList).drop count).take size =
        request.ranked store.documents.toList := by
    rw [← List.take_add, List.take_of_length_le (by omega)]
  by_cases hMaximum : request.matching store ≤ maximum
  · refine ⟨.ok (request.ranked store.documents.toList), middle, fun attempts hAttempts => ?_,
      fun _ => ⟨rfl, hFetches⟩, fun hMore => by omega⟩
    obtain ⟨attempts, rfl⟩ := Nat.exists_eq_add_of_le' hAttempts
    have hShort :
        (((request.ranked store.documents.toList).drop count).take size).length < size := by
      rw [List.length_take, List.length_drop]
      omega
    have hLast := leads_attempt_last maximum hBatch (by rw [hFound]; omega) hShort attempts
    rwa [hFound] at hLast
  · refine ⟨.error (.tooMany (request.matching store) maximum), middle,
      fun attempts hAttempts => ?_, fun hFew => absurd hFew hMaximum, fun _ => ⟨_, rfl⟩⟩
    obtain ⟨attempts, rfl⟩ := Nat.exists_eq_add_of_le' hAttempts
    have hMany := leads_attempt_tooMany maximum hBatch (by rw [hFound]; omega) attempts
    rwa [hFound, hLength] at hMany

/-- A full batch that takes the loop beyond the maximum ends it. -/
theorem runsBatches_tooMany (rounds : Nat) (hOnline : store.offline = false)
    (hFull : count + size ≤ request.matching store) (hMaximum : maximum < count + size) :
    ∃ result finish, RunsBatches request size maximum count rounds store result finish := by
  obtain ⟨middle, hBatch, _, _, _⟩ := leads_nextBatch request hOnline size count
  refine ⟨.error (.tooMany (count + size) maximum), middle, fun attempts hAttempts => ?_,
    fun hFew => by omega, fun _ => ⟨_, rfl⟩⟩
  obtain ⟨attempts, rfl⟩ :=
    Nat.exists_eq_add_of_le' (Nat.lt_of_le_of_lt (Nat.zero_le _) hAttempts)
  have hMany := leads_attempt_tooMany maximum hBatch (by rw [length_take_add hFull]; omega) attempts
  rwa [length_take_add hFull] at hMany

/-- A full batch within the maximum leaves the loop with one batch fewer. -/
theorem RunsBatches.full {middle finish : Store} {result : Except QueryError (List Document)}
    (hBatch : Leads
      (Access.call (Store.fetch
        { request with
          limit := some size
          startAfter := ((request.ranked store.documents.toList).take count).getLast? }))
      store (.ok (((request.ranked store.documents.toList).drop count).take size)) middle)
    (hDocuments : middle.documents = store.documents)
    (hFetches : middle.calls.fetches = store.calls.fetches + 1)
    (hFull : count + size ≤ request.matching store) (hMaximum : count + size ≤ maximum)
    (h : RunsBatches request size maximum (count + size) rounds middle result finish) :
    RunsBatches request size maximum count (rounds + 1) store result finish := by
  have hSame : request.matching middle = request.matching store := by
    rw [FetchRequest.matching, hDocuments, FetchRequest.matching]
  obtain ⟨hLeads, hFew, hMany⟩ := h
  rw [hSame] at hFew hMany
  rw [hDocuments] at hLeads hFew
  refine ⟨fun attempts hAttempts => ?_, fun hSmall => ?_, hMany⟩
  · obtain ⟨attempts, rfl⟩ :=
      Nat.exists_eq_add_of_le' (Nat.lt_of_le_of_lt (Nat.zero_le _) hAttempts)
    have hWhole : ¬ (((request.ranked store.documents.toList).drop count).take size).length <
        size := by
      rw [List.length_take, List.length_drop, request.length_ranked store]
      omega
    refine leads_attempt_full hBatch (by rw [length_take_add hFull]; omega) hWhole ?_
    rw [← List.take_add]
    exact hLeads attempts (by omega)
  · obtain ⟨hResult, hMore⟩ := hFew hSmall
    exact ⟨hResult, by omega⟩

/-- The loop from the first documents on, by induction on the full batches that
are left. -/
theorem exists_runsBatches (maximum : Nat) (hSize : 0 < size) (rounds : Nat)
    (hOnline : store.offline = false)
    (hRounds : (request.matching store - count) / size = rounds) :
    ∃ result finish, RunsBatches request size maximum count rounds store result finish := by
  induction rounds generalizing store count with
  | zero =>
      rcases Nat.div_eq_zero_iff.mp hRounds with hZero | hRest
      · omega
      · exact runsBatches_last maximum hOnline hRest
  | succ rounds ih =>
      obtain ⟨hFull, hStep⟩ := full_batch hSize hRounds
      by_cases hMaximum : count + size ≤ maximum
      · obtain ⟨middle, hBatch, hDocuments, hMiddle, hFetches⟩ :=
          leads_nextBatch request hOnline size count
        have hSame : request.matching middle = request.matching store := by
          rw [FetchRequest.matching, hDocuments, FetchRequest.matching]
        rw [← hSame] at hStep
        obtain ⟨result, finish, hRuns⟩ := ih hMiddle hStep
        exact ⟨result, finish, hRuns.full hBatch hDocuments hFetches hFull hMaximum⟩
      · exact runsBatches_tooMany (rounds + 1) hOnline hFull (Nat.lt_of_not_le hMaximum)

/-- A plan for anything but a document has clauses for the store that the store
can evaluate. -/
theorem eq_forMany_of_make {subject : Subject} {clauses : List Clause} {order : List OrderKey}
    {limit page : Option Nat} {plan : Plan} (hKind : subject.kind ≠ .document)
    (h : make subject clauses order limit page = .ok plan) :
    plan = forMany subject clauses order limit page ∧
      unsupported? (clauses.filter fun clause => !clause.isLocal) = none := by
  rw [make, if_neg hKind] at h
  split at h
  · cases h
  · dsimp only at h
    split at h
    · cases h
    · rename_i hSupported
      cases h
      exact ⟨rfl, hSupported⟩

/-- Clauses that are all supported can be asked of the store. -/
theorem exists_filters {clauses : List Clause} (h : unsupported? clauses = none) :
    ∃ filters, clauses.mapM filterOf = .ok filters := by
  have hRemote : ∀ clause ∈ clauses, ∃ filter, filterOf clause = .ok filter := by
    intro clause hClause
    have hSome := List.find?_eq_none.mp h clause hClause
    cases hOperator : clause.operator.remote? with
    | none => simp [hOperator] at hSome
    | some operator => exact ⟨_, by rw [filterOf, hOperator]⟩
  clear h
  induction clauses with
  | nil => exact ⟨[], rfl⟩
  | cons clause rest ih =>
      obtain ⟨filter, hFilter⟩ := hRemote clause List.mem_cons_self
      obtain ⟨filters, hFilters⟩ := ih fun other hOther =>
        hRemote other (List.mem_cons_of_mem _ hOther)
      exact ⟨filter :: filters, by rw [List.mapM_cons, hFilter, hFilters]; rfl⟩

/-- The orders that the store is asked for: those of the keys that are not
local. -/
def ordersOf (order : List OrderKey) : List FieldOrder :=
  (order.filter fun key => !key.isLocal).map fun key => ⟨key.property, key.direction⟩

/-- The request of such a plan asks for everything from the beginning on and
does not depend on how the documents are fetched. -/
theorem request_forMany {subject : Subject} {clauses : List Clause} {scope : Scope}
    {filters : List Filter} (hScope : scopeOf subject = .ok scope)
    (hFilters : (clauses.filter fun clause => !clause.isLocal).mapM filterOf = .ok filters)
    (order : List OrderKey) (limit page : Option Nat) :
    (forMany subject clauses order limit page).request =
      .ok { scope, filters, orders := ordersOf order } := by
  simp only [Plan.request, forMany, hScope, hFilters]
  rfl

theorem exists_request {subject : Subject} {clauses : List Clause} (order : List OrderKey)
    (hKind : subject.kind ≠ .document)
    (hSupported : unsupported? (clauses.filter fun clause => !clause.isLocal) = none) :
    ∃ scope filters, scopeOf subject = .ok scope ∧
      (clauses.filter fun clause => !clause.isLocal).mapM filterOf = .ok filters ∧
      ∀ limit page, (forMany subject clauses order limit page).request =
        .ok { scope, filters, orders := ordersOf order } := by
  obtain ⟨filters, hFilters⟩ := exists_filters hSupported
  have hScope : ∃ scope, scopeOf subject = .ok scope := by
    cases hCase : subject.kind with
    | collection => exact ⟨_, by rw [scopeOf, hCase]⟩
    | collectionGroup => exact ⟨_, by rw [scopeOf, hCase]⟩
    | document => exact absurd hCase hKind
  obtain ⟨scope, hScope⟩ := hScope
  exact ⟨scope, filters, hScope, hFilters, request_forMany hScope hFilters order⟩

variable {plan : Plan}

/-- One fetch, which is answered, and the check of how much it was. -/
theorem leads_fetchAll (maximum : Nat) (hOnline : store.offline = false) (request : FetchRequest) :
    ∃ finish,
      ((request.answer store.documents.toList).length ≤ maximum →
        Leads (fetchAll request maximum) store (.ok (request.answer store.documents.toList))
          finish) ∧
      (maximum < (request.answer store.documents.toList).length →
        Leads (fetchAll request maximum) store
          (.error (.tooMany (request.answer store.documents.toList).length maximum)) finish) := by
  have hFetch := (Store.leads_fetch hOnline request).call
  refine ⟨store.fetched request, fun hFew => ?_, fun hMany => ?_⟩
  · exact hFetch.bind ((leads_requireAtMost hFew _).bind (leads_pure _ _))
  · exact hFetch.bind (leads_requireAtMost_of_lt hMany _).bind_error

/-- One fetch of everything. -/
theorem leads_fetch_unbounded (maximum : Nat) (hOnline : store.offline = false)
    (hRequest : plan.request = .ok request) (hLimit : request.limit = none)
    (hStart : request.startAfter = none) (hStrategy : plan.strategy = .unbounded) :
    ∃ finish,
      (request.matching store ≤ maximum → Leads (plan.fetch maximum) store
        (.ok (request.ranked store.documents.toList)) finish) ∧
      (maximum < request.matching store → Leads (plan.fetch maximum) store
        (.error (.tooMany (request.matching store) maximum)) finish) := by
  have hAnswer : request.answer store.documents.toList =
      request.ranked store.documents.toList := by
    simp only [FetchRequest.answer, FetchRequest.resume, hLimit, hStart]
  obtain ⟨finish, hFew, hMany⟩ := leads_fetchAll maximum hOnline request
  rw [hAnswer, request.length_ranked] at hFew hMany
  have hPlanned := leads_planned hRequest store
  rw [fetch, hStrategy]
  exact ⟨finish, fun hSmall => hPlanned.bind (hFew hSmall),
    fun hLarge => hPlanned.bind (hMany hLarge)⟩

/-- One fetch of the first documents. -/
theorem leads_fetch_limited (maximum : Nat) {limit : Nat} (hOnline : store.offline = false)
    (hRequest : plan.request = .ok request) (hStart : request.startAfter = none)
    (hStrategy : plan.strategy = .limited limit) :
    ∃ finish,
      (min limit (request.matching store) ≤ maximum → Leads (plan.fetch maximum) store
        (.ok ((request.ranked store.documents.toList).take limit)) finish) ∧
      (maximum < min limit (request.matching store) → Leads (plan.fetch maximum) store
        (.error (.tooMany (min limit (request.matching store)) maximum)) finish) := by
  have hAnswer : FetchRequest.answer { request with limit := some limit } store.documents.toList =
      (request.ranked store.documents.toList).take limit := by
    simp only [FetchRequest.answer, FetchRequest.resume, hStart]
    rfl
  obtain ⟨finish, hFew, hMany⟩ :=
    leads_fetchAll maximum hOnline { request with limit := some limit }
  rw [hAnswer, List.length_take, request.length_ranked] at hFew hMany
  have hPlanned := leads_planned hRequest store
  rw [fetch, hStrategy]
  exact ⟨finish, fun hSmall => hPlanned.bind (hFew hSmall),
    fun hLarge => hPlanned.bind (hMany hLarge)⟩

/-- Batches to the end. The attempts that the plan allows are never used up. -/
theorem leads_fetch_paged (maximum : Nat) (hOnline : store.offline = false)
    (hRequest : plan.request = .ok request) (hSize : 0 < size)
    (hStrategy : plan.strategy = .paged size) :
    ∃ result finish,
      (∀ attempts, store.documents.size < attempts →
        Leads (fetchBatches request size maximum attempts []) store result finish) ∧
      Leads (plan.fetch maximum) store result finish ∧
      (request.matching store ≤ maximum →
        result = .ok (request.ranked store.documents.toList) ∧
          finish.calls.fetches = store.calls.fetches + request.matching store / size + 1) ∧
      (maximum < request.matching store →
        ∃ fetched, result = .error (.tooMany fetched maximum)) := by
  obtain ⟨result, finish, hLoop, hFew, hMany⟩ :=
    @exists_runsBatches request size store 0 maximum hSize _ hOnline rfl
  have hEnough : ∀ attempts, store.documents.size < attempts →
      Leads (fetchBatches request size maximum attempts []) store result finish := by
    intro attempts hAttempts
    refine hLoop attempts (Nat.lt_of_le_of_lt ?_ hAttempts)
    exact Nat.le_trans (Nat.div_le_self _ _) (request.matching_le_size store)
  have hPlanned := leads_planned hRequest store
  refine ⟨result, finish, hEnough, ?_, hFew, hMany⟩
  rw [fetch, hStrategy]
  exact hPlanned.bind ((leads_get store).bind (hEnough _ (Nat.lt_succ_self _)))

/-- A plan whose clauses are accepted gives what it fetches, filtered and sorted
where the store did not. -/
theorem leads_select {result : Except QueryError (List Document)} {finish : Store}
    (hCheck : checkClauses plan.localClauses = .ok ())
    (hFetch : Leads (plan.fetch maximum) store result finish) :
    Leads (plan.select maximum) store
      (result.map fun found =>
        sortDocuments plan.localOrder (filterDocuments plan.localClauses found))
      finish := by
  have hPlanned := leads_planned hCheck store
  cases result with
  | ok found => exact hPlanned.bind (hFetch.bind (leads_pure _ _))
  | error fault => exact hPlanned.bind hFetch.bind_error

/-- A plan with a clause that is refused fetches nothing. -/
theorem leads_select_of_unchecked {fault : PlanError}
    (hCheck : checkClauses plan.localClauses = .error fault) (maximum : Nat) (store : Store) :
    Leads (plan.select maximum) store (.error (.unplannable fault)) store :=
  (leads_planned_of_error hCheck store).bind_error

/-- A selection that succeeds has checked its patterns and has found the
documents that it filters and sorts. -/
theorem select_eq_ok {documents : List Document}
    (h : resultOf (plan.select maximum) store = .ok documents) :
    checkClauses plan.localClauses = .ok () ∧
      ∃ found, resultOf (plan.fetch maximum) store = .ok found ∧
        sortDocuments plan.localOrder (filterDocuments plan.localClauses found) = documents := by
  cases hCheck : checkClauses plan.localClauses with
  | error fault =>
      rw [(leads_select_of_unchecked hCheck maximum store).resultOf_eq] at h
      cases h
  | ok _ =>
      rw [(leads_select hCheck (leads_of (plan.fetch maximum) store)).resultOf_eq] at h
      cases hFetch : resultOf (plan.fetch maximum) store with
      | error fault =>
          rw [hFetch] at h
          cases h
      | ok found =>
          rw [hFetch] at h
          exact ⟨rfl, found, rfl, Except.ok.inj h⟩

/-- A store that is offline answers neither one fetch nor the first batch. -/
theorem resultOf_fetch_of_offline (maximum : Nat) (hOffline : store.offline = true)
    (hRequest : plan.request = .ok request)
    (hStrategy : plan.strategy = .unbounded ∨ ∃ size, plan.strategy = .paged size) :
    resultOf (plan.fetch maximum) store = .error (.store (.unavailable .offline)) := by
  have hPlanned := leads_planned hRequest store
  obtain hStrategy | ⟨size, hStrategy⟩ := hStrategy
  · rw [fetch, hStrategy]
    have hFetch := (Store.leads_fetch_of_offline hOffline request).call
    exact (hPlanned.bind hFetch.bind_error).resultOf_eq
  · rw [fetch, hStrategy]
    have hFetch := (Store.leads_fetch_of_offline hOffline
      { request with limit := some size, startAfter := [].getLast? }).call
    exact (hPlanned.bind ((leads_get store).bind hFetch.bind_error)).resultOf_eq

/-- When one fetch of everything succeeds, and with which documents. -/
theorem fetch_unbounded_eq_ok_iff (maximum : Nat) (store : Store)
    (hRequest : plan.request = .ok request) (hLimit : request.limit = none)
    (hStart : request.startAfter = none) (hStrategy : plan.strategy = .unbounded)
    {found : List Document} :
    resultOf (plan.fetch maximum) store = .ok found ↔
      store.offline = false ∧ request.matching store ≤ maximum ∧
        request.ranked store.documents.toList = found := by
  cases hOnline : store.offline with
  | true =>
      rw [resultOf_fetch_of_offline maximum hOnline hRequest (Or.inl hStrategy)]
      simp
  | false =>
      obtain ⟨finish, hFew, hMany⟩ := leads_fetch_unbounded maximum hOnline hRequest hLimit hStart
        hStrategy
      by_cases hMaximum : request.matching store ≤ maximum
      · rw [(hFew hMaximum).resultOf_eq]
        simp [hMaximum]
      · rw [(hMany (Nat.lt_of_not_le hMaximum)).resultOf_eq]
        simp [hMaximum]

end Plan

end DocQuery
