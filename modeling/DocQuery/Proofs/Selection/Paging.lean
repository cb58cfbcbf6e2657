import DocQuery.Proofs.Selection.Batches

/-! Batches and one fetch of everything select the same documents, so that a
page of any size can be added to a select, changed or left out. -/
namespace DocQuery

namespace Plan

variable {size maximum : Nat} {store : Store}

/-- What two plans for the same documents have in common if one fetches them in
batches and the other at once. -/
structure SameSelection (single paged : Plan) (request : FetchRequest) (size maximum : Nat)
    (store : Store) : Prop where
  single_request : single.request = .ok request
  paged_request : paged.request = .ok request
  /-- Up to the maximum both give every document once and in the same order, and
  the loop has made one fetch for each full batch and one for the rest. -/
  fetched : request.matching store ≤ maximum → ∃ documents,
    documents.Perm (store.documents.toList.filter request.selects) ∧
      resultOf (single.fetch maximum) store = .ok documents ∧
      resultOf (paged.fetch maximum) store = .ok documents ∧
      (finishOf (paged.fetch maximum) store).calls.fetches =
        store.calls.fetches + request.matching store / size + 1
  /-- Beyond the maximum both fail. -/
  tooMany : maximum < request.matching store →
    (∃ n, resultOf (single.fetch maximum) store = .error (.tooMany n maximum)) ∧
      ∃ n, resultOf (paged.fetch maximum) store = .error (.tooMany n maximum)
  /-- The loop comes to its end by itself: with more attempts it does the
  same. -/
  terminates : ∀ attempts, store.documents.size < attempts →
    (fetchBatches request size maximum attempts []).run.run store =
      (paged.fetch maximum).run.run store
  /-- The local clauses and the local order come after that. -/
  selected : ∀ documents, resultOf (paged.select maximum) store = .ok documents ↔
    resultOf (single.select maximum) store = .ok documents
  failed : (∃ n, resultOf (paged.select maximum) store = .error (.tooMany n maximum)) ↔
    ∃ n, resultOf (single.select maximum) store = .error (.tooMany n maximum)

/-- If both fetches give the same documents or fail together, so do both
selections: they check the same patterns before and apply the same clauses and
keys after. -/
theorem select_agree {single paged : Plan}
    (hFetch : resultOf (paged.fetch maximum) store = resultOf (single.fetch maximum) store ∨
      (∃ n, resultOf (paged.fetch maximum) store = .error (.tooMany n maximum)) ∧
        ∃ n, resultOf (single.fetch maximum) store = .error (.tooMany n maximum))
    (hClauses : paged.localClauses = single.localClauses)
    (hOrder : paged.localOrder = single.localOrder) :
    (∀ documents, resultOf (paged.select maximum) store = .ok documents ↔
      resultOf (single.select maximum) store = .ok documents) ∧
    ((∃ n, resultOf (paged.select maximum) store = .error (.tooMany n maximum)) ↔
      ∃ n, resultOf (single.select maximum) store = .error (.tooMany n maximum)) := by
  cases hCheck : checkClauses single.localClauses with
  | error fault =>
      have hCheckPaged : checkClauses paged.localClauses = .error fault := hClauses ▸ hCheck
      have hPaged := leads_select_of_unchecked hCheckPaged maximum store
      have hSingle := leads_select_of_unchecked hCheck maximum store
      rw [hPaged.resultOf_eq, hSingle.resultOf_eq]
      exact ⟨fun _ => Iff.rfl, Iff.rfl⟩
  | ok _ =>
      have hCheckPaged : checkClauses paged.localClauses = .ok () := hClauses ▸ hCheck
      have hPaged := leads_select hCheckPaged (leads_of (paged.fetch maximum) store)
      have hSingle := leads_select hCheck (leads_of (single.fetch maximum) store)
      rw [hPaged.resultOf_eq, hSingle.resultOf_eq, hClauses, hOrder]
      obtain hSame | ⟨⟨n, hPagedMany⟩, m, hSingleMany⟩ := hFetch
      · rw [hSame]
        exact ⟨fun _ => Iff.rfl, Iff.rfl⟩
      · rw [hPagedMany, hSingleMany]
        exact ⟨fun _ => ⟨nofun, nofun⟩, ⟨fun _ => ⟨m, rfl⟩, fun _ => ⟨n, rfl⟩⟩⟩

theorem sameSelection {subject : Subject} {clauses : List Clause} {order : List OrderKey}
    {single paged : Plan} (hOnline : store.offline = false) (hKind : subject.kind ≠ .document)
    (hSize : 0 < size) (hSingle : make subject clauses order none none = .ok single)
    (hPaged : make subject clauses order none (some size) = .ok paged) (maximum : Nat) :
    ∃ request, SameSelection single paged request size maximum store := by
  obtain ⟨rfl, hSupported⟩ := eq_forMany_of_make hKind hSingle
  obtain ⟨rfl, _⟩ := eq_forMany_of_make hKind hPaged
  obtain ⟨scope, filters, _, _, hRequest⟩ := exists_request order hKind hSupported
  obtain ⟨finish, hFew, hMany⟩ := leads_fetch_unbounded maximum hOnline
    (hRequest none none) rfl rfl rfl
  obtain ⟨result, last, hEnough, hFetch, hFewPaged, hManyPaged⟩ :=
    leads_fetch_paged maximum hOnline (hRequest none (some size)) hSize rfl
  have hAgree := @select_agree maximum store (forMany subject clauses order none none)
    (forMany subject clauses order none (some size)) (by
      rw [hFetch.resultOf_eq]
      by_cases hMaximum : FetchRequest.matching
          { scope, filters, orders := ordersOf order } store ≤ maximum
      · rw [(hFew hMaximum).resultOf_eq, (hFewPaged hMaximum).1]
        exact Or.inl rfl
      · have hBeyond := Nat.lt_of_not_le hMaximum
        rw [(hMany hBeyond).resultOf_eq]
        exact Or.inr ⟨hManyPaged hBeyond, _, rfl⟩) rfl rfl
  refine ⟨_, hRequest none none, hRequest none (some size), fun hMaximum => ?_,
    fun hMaximum => ?_, fun attempts hAttempts => ?_, hAgree.1, hAgree.2⟩
  · obtain ⟨hResult, hFetches⟩ := hFewPaged hMaximum
    refine ⟨_, FetchRequest.ranked_perm _ _, (hFew hMaximum).resultOf_eq, ?_, ?_⟩
    · rw [hFetch.resultOf_eq, hResult]
    · rw [hFetch.finishOf_eq, hFetches]
  · obtain ⟨n, hResult⟩ := hManyPaged hMaximum
    refine ⟨⟨_, (hMany hMaximum).resultOf_eq⟩, n, ?_⟩
    rw [hFetch.resultOf_eq, hResult]
  · exact (hEnough attempts hAttempts).trans hFetch.symm

/-- Planning looks at the page for the way of fetching only. -/
theorem make_page {subject : Subject} (hKind : subject.kind ≠ .document) (clauses : List Clause)
    (order : List OrderKey) (limit page : Option Nat) :
    make subject clauses order limit page =
      (make subject clauses order limit none).map fun plan =>
        { plan with strategy := strategyFor limit page } := by
  simp only [make, if_neg hKind, forMany]
  split
  · rfl
  · split <;> rfl

/-- Pages change nothing about the documents that are selected, online or
not. -/
theorem select_page {subject : Subject} {clauses : List Clause} {order : List OrderKey}
    (hKind : subject.kind ≠ .document) (hSize : 0 < size) (maximum : Nat) {single paged : Plan}
    (hSingle : make subject clauses order none none = .ok single)
    (hPaged : make subject clauses order none (some size) = .ok paged)
    (store : Store) (documents : List Document) :
    resultOf (paged.select maximum) store = .ok documents ↔
      resultOf (single.select maximum) store = .ok documents := by
  cases hOnline : store.offline with
  | false =>
      obtain ⟨request, hSame⟩ := sameSelection hOnline hKind hSize hSingle hPaged maximum
      exact hSame.selected documents
  | true =>
      obtain ⟨rfl, hSupported⟩ := eq_forMany_of_make hKind hSingle
      obtain ⟨rfl, _⟩ := eq_forMany_of_make hKind hPaged
      obtain ⟨scope, filters, _, _, hRequest⟩ := exists_request order hKind hSupported
      have hFetch := resultOf_fetch_of_offline maximum hOnline (hRequest none none) (Or.inl rfl)
      have hFetchPaged := resultOf_fetch_of_offline maximum hOnline (hRequest none (some size))
        (Or.inr ⟨size, rfl⟩)
      exact (select_agree (Or.inl (hFetchPaged.trans hFetch.symm)) rfl rfl).1 documents

end Plan

/-- The documents that a select is about, before they are arranged. -/
def Select.selection (q : Select) (maximum : Nat) : Access (List Document) := do
  (← Access.planned q.plan).select maximum

/-- With pages or without them the same documents are selected. -/
theorem Select.resultOf_selection_page (q : Select) {page : Option Nat}
    (hPage : ∀ size ∈ page, 0 < size) (maximum : Nat) (store : Store) (documents : List Document) :
    resultOf (selection { q with page } maximum) store = .ok documents ↔
      resultOf (selection { q with page := none } maximum) store = .ok documents := by
  obtain ⟨subject, clauses, projection, limit, _, order, group, aggregate, output⟩ := q
  by_cases hKind : subject.kind = .document
  · simp only [selection, Select.plan, Plan.make, hKind, if_true]
  · cases limit with
    | some limit => exact Iff.rfl
    | none =>
        cases page with
        | none => exact Iff.rfl
        | some size =>
            simp only [selection, Select.plan]
            cases hSingle : Plan.make subject clauses order none none with
            | error fault =>
                have hPaged := Plan.make_page hKind clauses order none (some size)
                rw [hSingle] at hPaged
                rw [hPaged]
                exact Iff.rfl
            | ok single =>
                have hPaged := Plan.make_page hKind clauses order none (some size)
                rw [hSingle] at hPaged
                rw [hPaged]
                exact Plan.select_page hKind (hPage size rfl) maximum hSingle hPaged store documents

theorem leads_saved (world : World) (destination : Destination) (text : String) (count : Nat) :
    Leads (do return Outcome.saved count (← Run.deliver destination text)) world
      (((world.sink.deliver destination text).2.mapError QueryError.output).map
        (Outcome.saved count))
      { world with sink := (world.sink.deliver destination text).1 } := by
  have hDeliver := leads_deliver world destination text
  cases hResult : (world.sink.deliver destination text).2 with
  | error fault =>
      rw [hResult] at hDeliver
      exact hDeliver.bind_error
  | ok place =>
      rw [hResult] at hDeliver
      exact hDeliver.bind (leads_pure _ _)

/-- Handing over a result takes nothing from the store. -/
theorem output_of_sink (engine : Engine) (clause : Option OutputClause) (count : Nat)
    (result : ResultSet) (sink : Sink) (first second : Store) :
    resultOf (engine.output clause count result) ⟨first, sink⟩ =
        resultOf (engine.output clause count result) ⟨second, sink⟩ ∧
      (finishOf (engine.output clause count result) ⟨first, sink⟩).sink =
        (finishOf (engine.output clause count result) ⟨second, sink⟩).sink := by
  have hSaved (destination : Destination) (text : String) :
      resultOf (do return Outcome.saved count (← Run.deliver destination text)) ⟨first, sink⟩ =
          resultOf (do return Outcome.saved count (← Run.deliver destination text))
            ⟨second, sink⟩ ∧
        (finishOf (do return Outcome.saved count (← Run.deliver destination text))
            ⟨first, sink⟩).sink =
          (finishOf (do return Outcome.saved count (← Run.deliver destination text))
            ⟨second, sink⟩).sink := by
    have hFirst := leads_saved ⟨first, sink⟩ destination text count
    have hSecond := leads_saved ⟨second, sink⟩ destination text count
    rw [hFirst.resultOf_eq, hSecond.resultOf_eq, hFirst.finishOf_eq, hSecond.finishOf_eq]
    exact ⟨rfl, rfl⟩
  cases clause with
  | none => exact ⟨rfl, rfl⟩
  | some clause =>
      obtain ⟨kind, format, destination⟩ := clause
      cases kind with
      | inline =>
          simp only [Engine.output]
          cases format.getD engine.format with
          | json => exact ⟨rfl, rfl⟩
          | csv => exact ⟨rfl, rfl⟩
      | clipboard => exact hSaved _ _
      | path => exact hSaved _ _

/-- A select arranges and puts out the documents that its selection gives. -/
theorem Engine.leads_select (engine : Engine) {q : Select} {world : World}
    {documents : List Document} {finish : Store}
    (h : Leads (q.selection engine.maximum) world.store (.ok documents) finish) :
    Leads (engine.select q) world
      (resultOf (engine.output q.output documents.length
        (arrange q.projection q.group q.aggregate documents)) { world with store := finish })
      (finishOf (engine.output q.output documents.length
        (arrange q.projection q.group q.aggregate documents)) { world with store := finish }) :=
  Leads.bind h.onStore (leads_of _ _)

theorem Engine.leads_select_of_error (engine : Engine) {q : Select} {world : World}
    {fault : QueryError} {finish : Store}
    (h : Leads (q.selection engine.maximum) world.store (.error fault) finish) :
    Leads (engine.select q) world (.error fault) { world with store := finish } :=
  Leads.bind_error h.onStore

/-- Pages change neither whether a select succeeds, nor its result, nor what the
sink is given. -/
theorem Engine.select_page (engine : Engine) (world : World) (q : Select) {page : Option Nat}
    (hPage : ∀ size ∈ page, 0 < size) :
    (∀ outcome, resultOf (engine.select { q with page }) world = .ok outcome ↔
      resultOf (engine.select { q with page := none }) world = .ok outcome) ∧
    (finishOf (engine.select { q with page }) world).sink =
      (finishOf (engine.select { q with page := none }) world).sink := by
  have hSelection := q.resultOf_selection_page hPage engine.maximum world.store
  have hPaged := leads_of (Select.selection { q with page } engine.maximum) world.store
  have hSingle := leads_of (Select.selection { q with page := none } engine.maximum) world.store
  cases hResult : resultOf (Select.selection { q with page } engine.maximum) world.store with
  | ok documents =>
      rw [hResult] at hPaged
      rw [(hSelection documents).mp hResult] at hSingle
      have hOutput := output_of_sink engine q.output documents.length
        (arrange q.projection q.group q.aggregate documents) world.sink
      rw [(engine.leads_select hPaged).resultOf_eq, (engine.leads_select hSingle).resultOf_eq,
        (engine.leads_select hPaged).finishOf_eq, (engine.leads_select hSingle).finishOf_eq]
      exact ⟨fun outcome => by rw [(hOutput _ _).1], (hOutput _ _).2⟩
  | error fault =>
      cases hOther : resultOf (Select.selection { q with page := none } engine.maximum)
          world.store with
      | ok documents =>
          rw [(hSelection documents).mpr hOther] at hResult
          cases hResult
      | error other =>
          rw [hResult] at hPaged
          rw [hOther] at hSingle
          rw [(engine.leads_select_of_error hPaged).resultOf_eq,
            (engine.leads_select_of_error hSingle).resultOf_eq,
            (engine.leads_select_of_error hPaged).finishOf_eq,
            (engine.leads_select_of_error hSingle).finishOf_eq]
          exact ⟨fun _ => ⟨nofun, nofun⟩, rfl⟩

/-- Paging never changes a result. On every store that is online the batches of
a selection make up what one fetch of everything gives, fail if and only if that
fails, and end after one fetch more than there are full batches; so a page of
any size can be added, changed or left out. -/
theorem Select.paging_changes_nothing :
    (∀ (store : Store) (subject : Subject) (clauses : List Clause) (order : List OrderKey)
      (size maximum : Nat) (single paged : Plan), store.offline = false →
      subject.kind ≠ .document → 0 < size →
      Plan.make subject clauses order none none = .ok single →
      Plan.make subject clauses order none (some size) = .ok paged →
      ∃ request, Plan.SameSelection single paged request size maximum store) ∧
    ∀ (engine : Engine) (world : World) (q : Select) (page other : Option Nat),
      (∀ size ∈ page, 0 < size) → (∀ size ∈ other, 0 < size) →
      (∀ outcome, resultOf (engine.select { q with page }) world = .ok outcome ↔
        resultOf (engine.select { q with page := other }) world = .ok outcome) ∧
      (finishOf (engine.select { q with page }) world).sink =
        (finishOf (engine.select { q with page := other }) world).sink := by
  refine ⟨fun store subject clauses order size maximum single paged hOnline hKind hSize hSingle
    hPaged => Plan.sameSelection hOnline hKind hSize hSingle hPaged maximum,
    fun engine world q page other hPage hOther => ?_⟩
  have hFirst := engine.select_page world q hPage
  have hSecond := engine.select_page world q hOther
  exact ⟨fun outcome => (hFirst.1 outcome).trans (hSecond.1 outcome).symm,
    hFirst.2.trans hSecond.2.symm⟩

/-- Two documents that the order does not tell apart, although one number is
whole and the other is not. -/
def Store.tied : Store :=
  { Store.empty with
    documents := (Documents.empty.put "users/b" [("age", .number (.integer 7))]).put "users/a"
      [("age", .number (.real (Double.ofInt 7)))] }

/-- Two documents fetched one by one, and all at once. -/
theorem Select.paging_changes_nothing_tied :
    (∃ request, Plan.SameSelection
      (Plan.forMany ⟨"users", .collection⟩ [] [⟨"age", .desc, false⟩] none none)
      (Plan.forMany ⟨"users", .collection⟩ [] [⟨"age", .desc, false⟩] none (some 1))
      request 1 5 Store.tied) ∧
    ∀ outcome,
      resultOf (Engine.select {} ⟨⟨"users", .collection⟩, [], .all, none, some 1,
        [⟨"age", .desc, true⟩], none, none, none⟩) ⟨Store.tied, .none⟩ = .ok outcome ↔
      resultOf (Engine.select {} ⟨⟨"users", .collection⟩, [], .all, none, none,
        [⟨"age", .desc, true⟩], none, none, none⟩) ⟨Store.tied, .none⟩ = .ok outcome := by
  have hPlan (page : Option Nat) : Plan.make ⟨"users", .collection⟩ [] [⟨"age", .desc, false⟩] none
      page = .ok (Plan.forMany ⟨"users", .collection⟩ [] [⟨"age", .desc, false⟩] none page) := by
    have hCollection : Path.isDocument "users" = false := by decide +kernel
    rw [Plan.make, if_neg (by simp), if_neg (by simp [hCollection])]
    rfl
  refine ⟨paging_changes_nothing.1 Store.tied _ _ _ 1 5 _ _ rfl (by decide) (by decide) (hPlan none)
    (hPlan (some 1)), ?_⟩
  exact (paging_changes_nothing.2 {} ⟨Store.tied, .none⟩
    ⟨⟨"users", .collection⟩, [], .all, none, none,
    [⟨"age", .desc, true⟩], none, none, none⟩ (some 1) none (by simp) (by simp)).1

end DocQuery
