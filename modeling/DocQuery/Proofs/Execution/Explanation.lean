import DocQuery.Proofs.Execution.Checks
import DocQuery.Proofs.Query.RoundTrip
import DocQuery.Proofs.Selection.Ordering

/-! What explaining a statement tells about running it. Both refuse the same
statements, and what a run reads from the store is what the explained plan
announces. Explaining itself is a function of the text alone: it has no store to
call. -/
namespace DocQuery

/-- What was read of a store between two states of it: so many documents
directly, and the answers to these fetches. -/
structure Store.Asked (before : Store) (gets : Nat) (made : List Fetched) (after : Store) :
    Prop where
  gets : after.calls.gets = before.calls.gets + gets
  fetches : after.calls.fetches = before.calls.fetches + made.length
  history : after.history = before.history ++ made

/-- The spelling in a request of an operator of a clause. -/
def Operator.requestSymbol : Operator → String
  | .notIn => "not-in"
  | other => other.symbol

/-- The reads that a strategy announces: so many direct ones and these fetches.
Without a strategy there is none of either. -/
inductive FetchStrategy.Announces : Option FetchStrategy → Nat → List FetchRequest → Prop
  | nothing : Announces none 0 []
  | document : Announces (some .document) 1 []
  | unbounded {request : FetchRequest} (hLimit : request.limit = none)
      (hStart : request.startAfter = none) : Announces (some .unbounded) 0 [request]
  | limited {limit : Nat} {request : FetchRequest} (hLimit : request.limit = some limit)
      (hStart : request.startAfter = none) : Announces (some (.limited limit)) 0 [request]
  | paged {size : Nat} {first : FetchRequest} {rest : List FetchRequest}
      (hLimit : ∀ request ∈ first :: rest, request.limit = some size)
      (hStart : first.startAfter = none)
      (hRest : ∀ request ∈ rest, request.startAfter.isSome = true) :
      Announces (some (.paged size)) 0 (first :: rest)

namespace Explanation

/-- A request is about the subject of an explanation and asks for the remote
clauses and the remote order that it shows, in the same order and with the same
values. -/
structure Carries (explanation : Explanation) (request : FetchRequest) : Prop where
  subject : ∃ path, explanation.subject = some path ∧
    Plan.scopeOf ⟨path, explanation.subjectKind⟩ = .ok request.scope
  filters :
    request.filters.map (fun filter => (filter.field, filter.operator.symbol, filter.value)) =
    explanation.remoteClauses.map fun clause =>
      (clause.property, clause.operator.requestSymbol, clause.value.toValue)
  orders : request.orders.map (fun order => (order.field, order.direction)) =
    explanation.remoteOrder.map fun key => (key.property, key.direction)

/-- What is read between two states of the store is what an explanation
announces, no more and no less. -/
structure Foretells (explanation : Explanation) (before after : Store) (gets : Nat)
    (made : List Fetched) : Prop where
  asked : before.Asked gets made after
  announced : FetchStrategy.Announces explanation.strategy gets (made.map Fetched.request)
  carried : ∀ fetched ∈ made, explanation.Carries fetched.request

end Explanation

section Reads

variable {α β : Type} {store middle finish : Store} {request : FetchRequest} {size maximum : Nat}

namespace Store

theorem asked_nothing (store : Store) : store.Asked 0 [] store :=
  ⟨rfl, rfl, (List.append_nil _).symm⟩

theorem Asked.cons {fetched : Fetched} {rest : List Fetched} (h : store.Asked 0 [fetched] middle)
    (hRest : middle.Asked 0 rest finish) : store.Asked 0 (fetched :: rest) finish := by
  constructor
  · rw [hRest.gets, h.gets]
  · rw [hRest.fetches, h.fetches]
    simp only [List.length_cons, List.length_nil]
    omega
  · rw [hRest.history, h.history, List.append_assoc]
    rfl

theorem asked_fetch {found : List Document} (h : resultOf (Store.fetch request) store = .ok found) :
    store.Asked 0 [⟨request, found.length⟩] (finishOf (Store.fetch request) store) := by
  cases hOnline : store.offline with
  | true =>
      rw [(leads_fetch_of_offline hOnline request).resultOf_eq] at h
      cases h
  | false =>
      have hFetch := leads_fetch hOnline request
      rw [hFetch.resultOf_eq] at h
      rw [hFetch.finishOf_eq, ← Except.ok.inj h]
      exact ⟨rfl, rfl, rfl⟩

theorem asked_getDocument (path : String) (store : Store) :
    store.Asked 1 [] (finishOf (Store.getDocument path) store) := by
  cases hOnline : store.offline with
  | true =>
      rw [(leads_getDocument_of_offline hOnline path).finishOf_eq]
      exact ⟨rfl, rfl, (List.append_nil _).symm⟩
  | false =>
      rw [(leads_getDocument hOnline path).finishOf_eq]
      exact ⟨rfl, rfl, (List.append_nil _).symm⟩

end Store

namespace Plan

theorem asked_fetchAll {found : List Document}
    (h : resultOf (fetchAll request maximum) store = .ok found) :
    store.Asked 0 [⟨request, found.length⟩] (finishOf (fetchAll request maximum) store) := by
  obtain ⟨answer, hAnswer, hRest, hFinish⟩ := exists_of_bind_eq_ok h
  obtain ⟨_, _, hFound, hLast⟩ := exists_of_bind_eq_ok hRest
  obtain ⟨hFetch, hMiddle⟩ := call_eq_ok hAnswer
  obtain rfl : answer = found := Except.ok.inj hFound
  rw [fetchAll, hFinish, hLast, finishOf_requireAtMost, hMiddle]
  exact Store.asked_fetch hFetch

/-- One attempt of the loop is a fetch. Then the loop ends, or it goes on behind
a full batch. -/
theorem attempt_eq_ok {attempts : Nat} {found documents : List Document}
    (h : resultOf (fetchBatches request size maximum (attempts + 1) found) store = .ok documents) :
    ∃ batch middle,
      store.Asked 0
        [⟨{ request with limit := some size, startAfter := found.getLast? }, batch.length⟩] middle ∧
      (finishOf (fetchBatches request size maximum (attempts + 1) found) store = middle ∨
        size ≤ batch.length ∧
        resultOf (fetchBatches request size maximum attempts (found ++ batch)) middle =
          .ok documents ∧
        finishOf (fetchBatches request size maximum (attempts + 1) found) store =
          finishOf (fetchBatches request size maximum attempts (found ++ batch)) middle) := by
  obtain ⟨batch, hBatch, hRest, hFinish⟩ := exists_of_bind_eq_ok h
  obtain ⟨_, _, hNext, hLast⟩ := exists_of_bind_eq_ok hRest
  obtain ⟨hFetch, hMiddle⟩ := call_eq_ok hBatch
  rw [hLast, finishOf_requireAtMost] at hFinish
  rw [finishOf_requireAtMost] at hNext
  rw [fetchBatches, hFinish]
  refine ⟨batch, _, Store.asked_fetch hFetch, ?_⟩
  rw [← hMiddle]
  by_cases hShort : batch.length < size
  · rw [if_pos hShort]
    exact Or.inl rfl
  · rw [if_neg hShort] at hNext ⊢
    exact Or.inr ⟨Nat.le_of_not_lt hShort, hNext, rfl⟩

/-- Behind documents that were found, every further batch has a starting
point. -/
theorem asked_furtherBatches {attempts : Nat} {found documents : List Document}
    (hFound : found ≠ [])
    (h : resultOf (fetchBatches request size maximum attempts found) store = .ok documents) :
    ∃ made, store.Asked 0 made (finishOf (fetchBatches request size maximum attempts found) store) ∧
      ∀ fetched ∈ made, ∃ last,
        fetched.request = { request with limit := some size, startAfter := some last } := by
  induction attempts generalizing store found with
  | zero => exact ⟨[], store.asked_nothing, by simp⟩
  | succ attempts ih =>
      obtain ⟨batch, middle, hAsked, hEnd⟩ := attempt_eq_ok h
      have hLast := List.getLast?_eq_some_getLast hFound
      rcases hEnd with hFinish | ⟨_, hNext, hFinish⟩
      · rw [hFinish]
        refine ⟨_, hAsked, ?_⟩
        intro fetched hFetched
        rw [List.mem_singleton.mp hFetched, hLast]
        exact ⟨_, rfl⟩
      · obtain ⟨made, hMade, hStarts⟩ := ih (List.append_ne_nil_of_left_ne_nil hFound batch) hNext
        rw [hFinish]
        refine ⟨_, hAsked.cons hMade, ?_⟩
        intro fetched hFetched
        rcases List.mem_cons.mp hFetched with rfl | hLater
        · rw [hLast]
          exact ⟨_, rfl⟩
        · exact hStarts fetched hLater

/-- The first batch has no starting point, and since it is not empty if it is
full, all others have one. -/
theorem asked_batches (hSize : 0 < size) {attempts : Nat} {documents : List Document}
    (h : resultOf (fetchBatches request size maximum (attempts + 1) []) store = .ok documents) :
    ∃ first rest, store.Asked 0 (first :: rest)
        (finishOf (fetchBatches request size maximum (attempts + 1) []) store) ∧
      first.request = { request with limit := some size, startAfter := none } ∧
      ∀ fetched ∈ rest, ∃ last,
        fetched.request = { request with limit := some size, startAfter := some last } := by
  obtain ⟨batch, middle, hAsked, hEnd⟩ := attempt_eq_ok h
  rcases hEnd with hFinish | ⟨hFull, hNext, hFinish⟩
  · rw [hFinish]
    exact ⟨_, [], hAsked, rfl, by simp⟩
  · have hFound : [] ++ batch ≠ [] := by
      rw [List.nil_append]
      exact List.ne_nil_of_length_pos (by omega)
    obtain ⟨made, hMade, hStarts⟩ := asked_furtherBatches hFound hNext
    rw [hFinish]
    exact ⟨_, made, hAsked.cons hMade, rfl, hStarts⟩

variable {plan : Plan}

/-- A request is that of a plan, but for its limit and its starting point. -/
def AsksFor (plan : Plan) (request : FetchRequest) : Prop :=
  plan.request = .ok { request with limit := none, startAfter := none }

/-- What is read between two states of the store is what a plan announces. -/
structure Gathers (plan : Plan) (before after : Store) (gets : Nat) (made : List Fetched) :
    Prop where
  asked : before.Asked gets made after
  announced : FetchStrategy.Announces (some plan.strategy) gets (made.map Fetched.request)
  asksFor : ∀ fetched ∈ made, plan.AsksFor fetched.request

theorem asksFor_of_request (h : plan.request = .ok request) (limit : Option Nat)
    (start : Option Document) :
    plan.AsksFor { request with limit := limit, startAfter := start } := by
  obtain ⟨_, _, _, hLimit, hStart⟩ := request_eq_ok h
  rw [AsksFor, h, ← hLimit, ← hStart]

/-- What is fetched in one request is announced as one. -/
theorem gathers_fetchAll (hRequest : plan.request = .ok request) {limit : Option Nat}
    (hAnnounced : FetchStrategy.Announces (some plan.strategy) 0
      [{ request with limit := limit, startAfter := none }]) {found : List Document}
    (h : resultOf (fetchAll { request with limit := limit } maximum) store = .ok found) :
    plan.Gathers store (finishOf (fetchAll { request with limit := limit } maximum) store) 0
      [⟨{ request with limit := limit }, found.length⟩] := by
  obtain ⟨_, _, _, _, hStart⟩ := request_eq_ok hRequest
  constructor
  · exact asked_fetchAll h
  · rw [List.map_singleton, hStart]
    exact hAnnounced
  · intro fetched hFetched
    rw [List.mem_singleton.mp hFetched]
    exact asksFor_of_request hRequest limit request.startAfter

/-- Pages are fetched by one request each, and every request goes on where the
page before it ended. -/
theorem gathers_fetchBatches (hRequest : plan.request = .ok request)
    (hStrategy : plan.strategy = .paged size) (hSize : 0 < size) {attempts : Nat}
    {documents : List Document}
    (h : resultOf (fetchBatches request size maximum (attempts + 1) []) store = .ok documents) :
    ∃ made, plan.Gathers store
      (finishOf (fetchBatches request size maximum (attempts + 1) []) store) 0 made := by
  obtain ⟨first, rest, hAsked, hFirst, hRest⟩ := asked_batches hSize h
  have hStarts : ∀ fetched ∈ first :: rest, ∃ start,
      fetched.request = { request with limit := some size, startAfter := start } := by
    intro fetched hFetched
    rcases List.mem_cons.mp hFetched with rfl | hLater
    · exact ⟨none, hFirst⟩
    · obtain ⟨last, hLast⟩ := hRest fetched hLater
      exact ⟨some last, hLast⟩
  use first :: rest
  constructor
  · exact hAsked
  · rw [hStrategy]
    apply FetchStrategy.Announces.paged
    · intro asked hMember
      rw [← List.map_cons] at hMember
      obtain ⟨fetched, hFetched, rfl⟩ := List.mem_map.mp hMember
      obtain ⟨start, hStart⟩ := hStarts fetched hFetched
      rw [hStart]
    · rw [hFirst]
    · intro asked hMember
      obtain ⟨fetched, hFetched, rfl⟩ := List.mem_map.mp hMember
      obtain ⟨last, hLast⟩ := hRest fetched hFetched
      rw [hLast]
      rfl
  · intro fetched hFetched
    obtain ⟨start, hStart⟩ := hStarts fetched hFetched
    rw [hStart]
    exact asksFor_of_request hRequest (some size) start

/-- What a plan fetches is what its strategy announces. -/
theorem gathers_fetch (hPage : ∀ size, plan.strategy = .paged size → 0 < size)
    {found : List Document} (h : resultOf (plan.fetch maximum) store = .ok found) :
    ∃ gets made, plan.Gathers store (finishOf (plan.fetch maximum) store) gets made := by
  rw [fetch] at h ⊢
  cases hStrategy : plan.strategy with
  | document =>
      rw [hStrategy] at h
      obtain ⟨_, hAnswer, _, hFinish⟩ := exists_of_bind_eq_ok h
      dsimp only
      rw [hFinish, (leads_pure _ _).finishOf_eq, (call_eq_ok hAnswer).2]
      use 1, []
      constructor
      · exact Store.asked_getDocument _ _
      · rw [hStrategy]
        exact .document
      · simp
  | limited limit =>
      rw [hStrategy] at h
      obtain ⟨request, hRequest, hFetch, hFinish⟩ := planned_bind_eq_ok h
      dsimp only
      rw [hFinish]
      refine ⟨0, _, gathers_fetchAll hRequest ?_ hFetch⟩
      rw [hStrategy]
      exact .limited rfl rfl
  | unbounded =>
      rw [hStrategy] at h
      obtain ⟨request, hRequest, hFetch, hFinish⟩ := planned_bind_eq_ok h
      obtain ⟨_, _, _, hLimit, _⟩ := request_eq_ok hRequest
      dsimp only
      rw [hFinish]
      refine ⟨0, _, gathers_fetchAll hRequest ?_ hFetch⟩
      rw [hStrategy]
      exact .unbounded hLimit rfl
  | paged size =>
      rw [hStrategy] at h
      obtain ⟨request, hRequest, hFetch, hFinish⟩ := planned_bind_eq_ok h
      dsimp only
      rw [hFinish]
      use 0
      exact gathers_fetchBatches hRequest hStrategy (hPage size hStrategy) hFetch

/-- A plan makes the requests that its strategy announces. -/
theorem gathers_select (hPage : ∀ size, plan.strategy = .paged size → 0 < size)
    {documents : List Document} (h : resultOf (plan.select maximum) store = .ok documents) :
    ∃ gets made, plan.Gathers store (finishOf (plan.select maximum) store) gets made := by
  obtain ⟨_, _, hRest, hFinish⟩ := planned_bind_eq_ok h
  obtain ⟨found, hFetch, _, hLast⟩ := exists_of_bind_eq_ok hRest
  rw [select, hFinish, hLast]
  exact gathers_fetch hPage hFetch

end Plan

end Reads

section Statements

variable {before store : Store} {gets : Nat} {made : List Fetched}

namespace Store

/-- Writes are counted, but not as reads. -/
theorem keeps_asked_count {call : Calls → Calls}
    (h : ∀ calls, (call calls).gets = calls.gets ∧ (call calls).fetches = calls.fetches) :
    Keeps (before.Asked gets made) (Store.count call) := by
  apply keeps_modify
  intro found hFound
  exact ⟨(h found.calls).1.trans hFound.gets, (h found.calls).2.trans hFound.fetches,
    hFound.history⟩

theorem keeps_asked_update (path : String) (patch : Fields) :
    Keeps (before.Asked gets made) (Store.update path patch) := by
  refine Keeps.bind (keeps_asked_count fun _ => ⟨rfl, rfl⟩) fun _ _ _ =>
    (keeps_requireWritable _).bind fun _ _ _ => keeps_get.bind fun _ found _ => ?_
  cases found.documents.get? (Path.trim path) with
  | none => exact keeps_throw _
  | some fields => exact keeps_modify fun _ h => ⟨h.gets, h.fetches, h.history⟩

theorem keeps_asked_delete (path : String) : Keeps (before.Asked gets made) (Store.delete path) :=
  Keeps.bind (keeps_asked_count fun _ => ⟨rfl, rfl⟩) fun _ _ _ =>
    (keeps_requireWritable _).bind fun _ _ _ =>
      keeps_modify fun _ h => ⟨h.gets, h.fetches, h.history⟩

theorem keeps_asked_create (collection : String) (id : Option String) (fields : Fields) :
    Keeps (before.Asked gets made) (Store.create collection id fields) := by
  rw [Store.create]
  refine Keeps.bind (keeps_asked_count fun _ => ⟨rfl, rfl⟩) fun _ _ _ =>
    keeps_requireOnline.bind fun _ _ _ => ?_
  dsimp only
  cases isCollection (Path.trim collection) with
  | false => exact keeps_throw_bind _ _
  | true =>
      refine (keeps_chooseId id).bind fun _ name _ =>
        (keeps_requireWritable _).bind fun _ _ _ => keeps_get.bind fun _ found _ => ?_
      split
      · exact keeps_throw_bind _ _
      · refine Keeps.bind (keeps_modify fun _ h => ?_) fun _ _ _ => keeps_pure _
        exact ⟨h.gets, h.fetches, h.history⟩

end Store

theorem Operator.symbol_of_remote {operator : Operator} {remote : RemoteOperator}
    (h : operator.remote? = some remote) : remote.symbol = operator.requestSymbol := by
  cases operator with
  | like => cases h
  | _ =>
      cases h
      rfl

namespace Plan

/-- A filter has the property, the symbol and the value of its clause. -/
theorem filterOf_eq_ok {clause : Clause} {filter : Filter} (h : filterOf clause = .ok filter) :
    (filter.field, filter.operator.symbol, filter.value) =
      (clause.property, clause.operator.requestSymbol, clause.value.toValue) := by
  rw [filterOf] at h
  cases hRemote : clause.operator.remote? with
  | none =>
      rw [hRemote] at h
      cases h
  | some remote =>
      rw [hRemote] at h
      obtain rfl := Except.ok.inj h
      rw [Operator.symbol_of_remote hRemote]

/-- A clause becomes a filter with its property and value, in its place among
the others. -/
theorem filters_eq {clauses : List Clause} {filters : List Filter}
    (h : clauses.mapM filterOf = .ok filters) :
    filters.map (fun filter => (filter.field, filter.operator.symbol, filter.value)) =
      clauses.map fun clause =>
        (clause.property, clause.operator.requestSymbol, clause.value.toValue) := by
  have hEach := Grammar.mapM_ok h
  clear h
  induction hEach with
  | nil => rfl
  | cons hFirst _ ih => rw [List.map_cons, List.map_cons, filterOf_eq_ok hFirst, ih]

end Plan

/-- The plan of a statement is one for its subject, and its pages are those of
the statement. -/
theorem Query.exists_make_of_plan {query : Query} {plan : Plan} (hWell : query.WellFormed)
    (h : query.plan? = .ok (some plan)) :
    ∃ subject clauses order limit page, Plan.make subject clauses order limit page = .ok plan ∧
      query.subjectPath? = some subject.path ∧ query.subjectKind = subject.kind ∧
      ∀ size, page = some size → 0 < size := by
  cases query with
  | select q =>
      obtain ⟨_, hMake, hPlan⟩ := Grammar.passed h
      obtain rfl := Option.some.inj (Except.ok.inj hPlan)
      have hPage (size : Nat) (hSize : q.page = some size) : 0 < size := (hWell.page size hSize).1
      exact ⟨_, _, _, _, _, hMake, rfl, rfl, hPage⟩
  | update q =>
      obtain ⟨_, hMake, hPlan⟩ := Grammar.passed h
      obtain rfl := Option.some.inj (Except.ok.inj hPlan)
      exact ⟨_, _, _, _, _, hMake, rfl, rfl, nofun⟩
  | delete q =>
      obtain ⟨_, hMake, hPlan⟩ := Grammar.passed h
      obtain rfl := Option.some.inj (Except.ok.inj hPlan)
      exact ⟨_, _, _, _, _, hMake, rfl, rfl, nofun⟩
  | insert q =>
      obtain ⟨_, _, hPlan⟩ := Grammar.passed h
      cases hPlan
  | «show» q =>
      obtain ⟨target, hTarget, hPlan⟩ := Grammar.passed h
      cases target with
      | root => cases hPlan
      | document path => cases hPlan
      | below found =>
          obtain rfl := Option.some.inj (Except.ok.inj hPlan)
          obtain ⟨subject, hSubject, hMake⟩ := Show.make_of_target hTarget
          refine ⟨_, _, _, _, _, hMake, ?_, ?_, nofun⟩
          · rw [subjectPath?, hSubject, Option.map_some]
          · rw [subjectKind, hSubject, Option.map_some, Option.getD_some]

section Foretelling

variable {query : Query} {plan : Plan} {after : Store} {made : Except PlanError Plan} {α : Type}

/-- What the plan of a statement announces, the explanation of the statement
does. -/
theorem Plan.Gathers.foretells {fetches : List Fetched} (h : plan.Gathers before after gets fetches)
    (hWell : query.WellFormed) (hPlan : query.plan? = .ok (some plan)) :
    (Explanation.ofPlan query (some plan)).Foretells before after gets fetches := by
  obtain ⟨subject, _, _, _, _, hMake, hPath, hKind, _⟩ := query.exists_make_of_plan hWell hPlan
  have hSubject := Plan.subject_of_make hMake
  constructor
  · exact h.asked
  · exact h.announced
  · intro fetched hFetched
    obtain ⟨hScope, hFilters, hOrders, _, _⟩ := Plan.request_eq_ok (h.asksFor fetched hFetched)
    constructor
    · use subject.path
      constructor
      · exact hPath
      · rw [Explanation.ofPlan, hKind, ← hScope, hSubject]
    · exact Plan.filters_eq hFilters
    · change fetched.request.orders = _ at hOrders
      rw [hOrders, List.map_map]
      rfl

theorem Store.Asked.foretells (h : before.Asked 0 [] after) :
    (Explanation.ofPlan query none).Foretells before after 0 [] :=
  ⟨h, .nothing, fun _ => nofun⟩

/-- The pages of a well-formed query hold a document. -/
theorem Query.page_pos (hWell : query.WellFormed) (hPlan : query.plan? = .ok (some plan)) :
    ∀ size, plan.strategy = .paged size → 0 < size := by
  obtain ⟨_, _, _, _, _, hMake, _, _, hPage⟩ := query.exists_make_of_plan hWell hPlan
  intro size hPaged
  exact hPage size (Plan.page_of_make hMake hPaged)

/-- A statement that begins with a selection and then asks nothing. -/
theorem Query.foretells_selecting (hWell : query.WellFormed) (hPlan : query.plan? = some <$> made)
    {maximum : Nat} {next : List Document → Access α}
    (hNext : ∀ documents before gets fetches,
      Keeps (Store.Asked before gets fetches) (next documents))
    {a : α} (h : resultOf (Plan.selecting made maximum >>= next) store = .ok a) :
    ∃ plan gets fetches, query.plan? = .ok (some plan) ∧
      (Explanation.ofPlan query (some plan)).Foretells store
        (finishOf (Plan.selecting made maximum >>= next) store) gets fetches := by
  obtain ⟨documents, hSelecting, _, hFinish⟩ := exists_of_bind_eq_ok h
  obtain ⟨plan, rfl, hSelect, hSelected⟩ := planned_bind_eq_ok hSelecting
  obtain ⟨gets, fetches, hGathers⟩ := Plan.gathers_select (query.page_pos hWell hPlan) hSelect
  have hAsked := hNext documents store gets fetches _ hGathers.asked
  rw [hFinish, Plan.selecting, hSelected]
  exact ⟨plan, gets, fetches, hPlan,
    Plan.Gathers.foretells ⟨hAsked, hGathers.announced, hGathers.asksFor⟩ hWell hPlan⟩

namespace Engine

variable {world : World} {outcome : Outcome}

/-- The reads of a statement that writes are those of its selection. -/
theorem foretells_writeSelected (engine : Engine) (hWell : query.WellFormed)
    (hPlan : query.plan? = some <$> made) {write : String → StoreM Unit}
    (hWrite : ∀ path before gets fetches, Keeps (Store.Asked before gets fetches) (write path))
    (h : resultOf (engine.writeSelected made write) world = .ok outcome) :
    ∃ plan gets fetches, query.plan? = .ok (some plan) ∧
      (Explanation.ofPlan query (some plan)).Foretells world.store
        (finishOf (engine.writeSelected made write) world).store gets fetches := by
  rw [writeSelected_eq] at h ⊢
  obtain ⟨hAccess, hFinish⟩ := onStore_eq_ok h
  rw [hFinish]
  apply query.foretells_selecting hWell hPlan _ hAccess
  intro documents before gets fetches
  have hEach : Keeps (before.Asked gets fetches)
      (liftM (Store.writeEach write documents) : Access (Nat × List String)) :=
    Store.keeps_writeEach (fun path => hWrite path before gets fetches) documents
  exact hEach.bind fun _ _ _ => keeps_pure _

theorem foretells_show (engine : Engine) {q : Show} (hWell : (Query.show q).WellFormed)
    (h : resultOf (engine.showCollections q) world = .ok outcome) :
    ∃ plan? gets fetches, (Query.show q).plan? = .ok plan? ∧
      (Explanation.ofPlan (.show q) plan?).Foretells world.store
        (finishOf (engine.showCollections q) world).store gets fetches := by
  obtain ⟨hAccess, hFinish⟩ := onStore_eq_ok h
  rw [showCollections, hFinish]
  obtain ⟨target, hTarget, hNext, hLast⟩ := planned_bind_eq_ok hAccess
  rw [hLast]
  have hNames (parent : Option String) : Keeps (world.store.Asked 0 [])
      (do return .collections (← Access.call (Store.listCollections parent)) : Access Outcome) :=
    (Store.keeps_listCollections parent).call.bind fun _ _ _ => keeps_pure _
  rw [Query.plan?, hTarget]
  cases target with
  | root =>
      have hAsked := hNames none _ world.store.asked_nothing
      exact ⟨none, 0, [], rfl, hAsked.foretells⟩
  | document path =>
      have hAsked := hNames (some path) _ world.store.asked_nothing
      exact ⟨none, 0, [], rfl, hAsked.foretells⟩
  | below plan =>
      obtain ⟨documents, hFetch, _, hBelow⟩ := exists_of_bind_eq_ok hNext
      have hPlan : (Query.show q).plan? = .ok (some plan) := by
        rw [Query.plan?, hTarget]
        rfl
      obtain ⟨gets, fetches, hGathers⟩ := Plan.gathers_fetch (Query.page_pos hWell hPlan) hFetch
      have hKeeps : Keeps (world.store.Asked gets fetches)
          (do return .collections (← Access.call (Store.collectionsBelow documents)) :
            Access Outcome) :=
        (Store.keeps_collectionsBelow documents).call.bind fun _ _ _ => keeps_pure _
      dsimp only
      rw [hBelow]
      refine ⟨some plan, gets, fetches, rfl, ?_⟩
      have hAsked := hKeeps _ hGathers.asked
      exact Plan.Gathers.foretells ⟨hAsked, hGathers.announced, hGathers.asksFor⟩ hWell hPlan

/-- Whatever is executed asks the store for what was foretold. -/
theorem foretells_execute (engine : Engine) (hWell : query.WellFormed)
    (h : resultOf (engine.execute query) world = .ok outcome) :
    ∃ plan? gets fetches, query.plan? = .ok plan? ∧
      (Explanation.ofPlan query plan?).Foretells world.store
        (finishOf (engine.execute query) world).store gets fetches := by
  cases query with
  | select q =>
      obtain ⟨documents, hSelection, _, hFinish⟩ := exists_of_bind_eq_ok h
      obtain ⟨hAccess, hSelected⟩ := onStore_eq_ok hSelection
      rw [← bind_pure (_ >>= _)] at hAccess
      obtain ⟨plan, gets, fetches, hPlan, hForetells⟩ := (Query.select q).foretells_selecting hWell
        (bind_pure_comp some q.plan) (fun _ _ _ _ => keeps_pure _) hAccess
      refine ⟨some plan, gets, fetches, hPlan, ?_, hForetells.announced, hForetells.carried⟩
      rw [execute, select, hFinish]
      apply engine.keeps_output
      rw [hSelected, ← bind_pure (_ >>= _)]
      exact hForetells.asked
  | update q =>
      obtain ⟨plan, gets, fetches, hPlan, hForetells⟩ := engine.foretells_writeSelected hWell
        (bind_pure_comp some q.plan) (fun path _ _ _ => Store.keeps_asked_update path _) h
      exact ⟨some plan, gets, fetches, hPlan, hForetells⟩
  | delete q =>
      obtain ⟨plan, gets, fetches, hPlan, hForetells⟩ := engine.foretells_writeSelected hWell
        (bind_pure_comp some q.plan) (fun path _ _ _ => Store.keeps_asked_delete path) h
      exact ⟨some plan, gets, fetches, hPlan, hForetells⟩
  | insert q =>
      rw [execute, insert] at h ⊢
      obtain ⟨hAccess, hFinish⟩ := onStore_eq_ok h
      obtain ⟨_, hCheck, _, hLast⟩ := planned_bind_eq_ok hAccess
      have hKeeps : Keeps (world.store.Asked 0 []) (do
          let _ ← Access.call (Store.create q.collection q.identifier (patchOf q.setters))
          return .written 1 [] : Access Outcome) :=
        (Store.keeps_asked_create _ _ _).call.bind fun _ _ _ => keeps_pure _
      refine ⟨none, 0, [], ?_, ?_⟩
      · rw [Query.plan?, hCheck]
        rfl
      · rw [hFinish, hLast]
        exact (hKeeps _ world.store.asked_nothing).foretells
  | «show» q => exact engine.foretells_show hWell h

end Engine

end Foretelling

end Statements

/-- What explaining a statement tells about running it. -/
structure Engine.Foretold (engine : Engine) (text : String) (world : World) : Prop where
  /-- The explanation is refused for what the run is refused for, before any
  call to the store. -/
  refused : ∀ fault, explain text = .error fault ↔
    resultOf (engine.run text) world = .error fault ∧ fault.IsEarly
  /-- A run that succeeds has read what was announced, no more and no less. -/
  reads : ∀ explanation outcome, explain text = .ok explanation →
    resultOf (engine.run text) world = .ok outcome →
    ∃ gets fetches, explanation.Foretells world.store (finishOf (engine.run text) world).store
      gets fetches

/-- A query that is refused before the store asks nothing, as was foretold. -/
theorem Engine.foretold_of_refused {engine : Engine} {text : String} {world : World}
    {fault : QueryError} (hExplain : explain text = .error fault) (hEarly : fault.IsEarly)
    (hRun : resultOf (engine.run text) world = .error fault) : engine.Foretold text world := by
  constructor
  · intro other
    rw [hExplain, hRun]
    constructor
    · intro hFault
      obtain rfl := Except.error.inj hFault
      exact ⟨rfl, hEarly⟩
    · intro hFault
      rw [Except.error.inj hFault.1]
  · intro _ _ h
    cases hExplain.symm.trans h

/-- Explaining predicts running, for every text and from every state of the
store. -/
theorem Engine.explaining_foretells_running (engine : Engine) (text : String) (world : World) :
    engine.Foretold text world := by
  cases hText : Query.ofText text with
  | error error =>
      have hExplain : explain text = .error (.malformed error) := by rw [explain, hText]
      have hRun : resultOf (engine.run text) world = .error (.malformed error) := by
        rw [run, hText]
        rfl
      exact foretold_of_refused hExplain trivial hRun
  | ok query =>
      have hExplain : explain text = query.explain.mapError .unplannable := by rw [explain, hText]
      have hRun : engine.run text = engine.execute query := by rw [run, hText]
      cases engine.checksAsExplained_execute query with
      | refused hRefused hLeads =>
          rw [hRefused] at hExplain
          exact foretold_of_refused hExplain trivial (hRun ▸ hLeads world)
      | @passed explanation hPassed hNever =>
          rw [hPassed] at hExplain
          constructor
          · intro fault
            rw [hExplain, hRun]
            constructor
            · intro hFault
              cases hFault
            · intro hFault
              exact absurd hFault.2 (hNever world fault hFault.1)
          · intro other outcome hOther hOutcome
            obtain rfl := Except.ok.inj (hExplain.symm.trans hOther)
            rw [hRun] at hOutcome ⊢
            obtain ⟨plan?, gets, fetches, hPlan, hForetells⟩ :=
              engine.foretells_execute (Query.wellFormed_of_ofText hText) hOutcome
            obtain ⟨found, hFound, hExplanation⟩ := Grammar.passed hPassed
            obtain ⟨_, _, hMade⟩ := Grammar.passed hExplanation
            obtain rfl := Except.ok.inj (hFound.symm.trans hPlan)
            obtain rfl := Except.ok.inj hMade
            exact ⟨gets, fetches, hForetells⟩

/-- Documents in pages of one, in an order of which the store knows nothing. -/
def Select.onePage : Select :=
  ⟨⟨"users", .collection⟩, [], .all, none, some 1, [⟨"age", .desc, true⟩], none, none, none⟩

/-- The documents come in pages, as announced, and a document path after `from`
is refused by both. -/
theorem Engine.explaining_foretells_running_paged :
    (∃ explanation gets fetches,
      explain "select * from \"users\" order by \"age\"^ desc page 1" = .ok explanation ∧
      explanation.strategy = some (.paged 1) ∧
      explanation.Foretells Store.tied (finishOf (Engine.run { maximum := 5 }
        "select * from \"users\" order by \"age\"^ desc page 1") ⟨Store.tied, .none⟩).store
        gets fetches) ∧
    explain "select * from \"users/a\"" = .error (.unplannable (.notACollection "users/a")) := by
  have hWell : Select.onePage.WellFormed := by
    constructor <;> simp [Select.onePage, Subject.WellFormed, Projection.WellFormed]
  have hQuery : Query.ofText "select * from \"users\" order by \"age\"^ desc page 1" =
      .ok (.select .onePage) := by
    have hText : (Query.select .onePage).text =
        "select * from \"users\" order by \"age\"^ desc page 1" := by decide +kernel
    rw [← hText]
    exact Query.ofText_text hWell
  have hPlan : Select.onePage.plan =
      .ok (.forMany ⟨"users", .collection⟩ [] [⟨"age", .desc, true⟩] none (some 1)) := by
    have hCollection : Path.isDocument "users" = false := by decide +kernel
    rw [Select.plan, Plan.make, Select.onePage, if_neg (by simp), if_neg (by simp [hCollection])]
    rfl
  have hExplain : explain "select * from \"users\" order by \"age\"^ desc page 1" =
      .ok (.ofPlan (.select .onePage) (some
        (.forMany ⟨"users", .collection⟩ [] [⟨"age", .desc, true⟩] none (some 1)))) := by
    rw [explain, hQuery]
    simp only [Query.explain, Query.plan?, hPlan]
    rfl
  have hSelection : resultOf (Select.onePage.selection 5) Store.tied =
      .ok Store.tied.documents.toList := by
    have hPage : ∀ size ∈ Select.onePage.page, 0 < size := fun size hSize =>
      (hWell.page size hSize).1
    apply (Select.onePage.resultOf_selection_page hPage 5 Store.tied _).mpr
    exact Store.resultOf_selection_tied Store.tied rfl rfl (Or.inr rfl)
  have hLeads := leads_of (Select.onePage.selection 5) Store.tied
  rw [hSelection] at hLeads
  have hRun := @leads_select { maximum := 5 } .onePage ⟨Store.tied, .none⟩ _ _ hLeads
  obtain ⟨outcome, hResult⟩ : ∃ outcome, resultOf (Engine.run { maximum := 5 }
      "select * from \"users\" order by \"age\"^ desc page 1") ⟨Store.tied, .none⟩ =
        .ok outcome := by
    rw [run, hQuery]
    exact ⟨_, hRun.resultOf_eq⟩
  obtain ⟨gets, fetches, hForetells⟩ := (explaining_foretells_running { maximum := 5 } _ _).reads
    _ _ hExplain hResult
  refine ⟨⟨_, gets, fetches, hExplain, rfl, hForetells⟩, ?_⟩
  apply ((explaining_foretells_running {} _ ⟨Store.tied, .none⟩).refused _).mpr
  exact ⟨rfl, trivial⟩

end DocQuery
