import DocQuery.Proofs.Execution.Checks
import DocQuery.Proofs.Selection.Picks

/-! Limits. The store cuts its answer off after it has sorted and before
anything local is done, so a limit gives the first records of what there is
without it, unless there are local clauses or a local key. Then the explanation
warns. -/
namespace DocQuery

namespace Plan

variable {subject : Subject} {clauses : List Clause} {order : List OrderKey} {plan : Plan}

/-- Whether a select is planned does not depend on its limit or its page. -/
theorem make_eq_forMany {limit page : Option Nat} (hKind : subject.kind ≠ .document)
    (h : make subject clauses order limit page = .ok plan) (otherLimit otherPage : Option Nat) :
    make subject clauses order otherLimit otherPage =
      .ok (forMany subject clauses order otherLimit otherPage) := by
  have hSupported := (eq_forMany_of_make hKind h).2
  rw [make, if_neg hKind] at h ⊢
  split at h
  · cases h
  · rename_i hCollection
    simp only [if_neg hCollection, forMany, hSupported]

/-- Without a warning about its limit a plan leaves nothing to do after the
fetch. -/
theorem nothing_local_of_no_warning {limit : Nat} (hStrategy : plan.strategy = .limited limit)
    (h : ∀ n, Warning.limitBeforeFilter n ∉ plan.warnings ∧
      Warning.limitBeforeSort n ∉ plan.warnings) :
    plan.localClauses = [] ∧ plan.localOrder = [] := by
  have hWarnings : plan.warnings =
      (if plan.localClauses.isEmpty then [] else [.limitBeforeFilter limit]) ++
        (if plan.localOrder.isEmpty then [] else [.limitBeforeSort limit]) := by
    rw [warnings, hStrategy]
  obtain ⟨hFilter, hSort⟩ := h limit
  rw [hWarnings, List.mem_append, not_or] at hFilter hSort
  constructor
  · cases hClauses : plan.localClauses with
    | nil => rfl
    | cons clause rest => simp [hClauses] at hFilter
  · cases hOrder : plan.localOrder with
    | nil => rfl
    | cons key rest => simp [hOrder] at hSort

end Plan

namespace Select

variable {q : Select} {limit maximum : Nat} {store : Store} {scope : Scope} {filters : List Filter}

/-- How a select with a limit ends whose patterns are in order. -/
theorem leads_limited {plan : Plan} (hKind : q.subject.kind ≠ .document)
    (hLimit : q.limit = some limit) (hPlan : q.plan = .ok plan)
    (hCheck : checkClauses plan.localClauses = .ok ())
    (hScope : Plan.scopeOf q.subject = .ok scope)
    (hFilters : (q.clauses.filter fun clause => !clause.isLocal).mapM Plan.filterOf = .ok filters)
    (maximum : Nat) (hOnline : store.offline = false) :
    let request : FetchRequest := { scope, filters, orders := Plan.ordersOf q.order }
    ∃ finish,
      (min limit (request.matching store) ≤ maximum → Leads (q.selection maximum) store
        (.ok (sortDocuments plan.localOrder (filterDocuments plan.localClauses
          ((request.ranked store.documents.toList).take limit)))) finish) ∧
      (maximum < min limit (request.matching store) → Leads (q.selection maximum) store
        (.error (.tooMany (min limit (request.matching store)) maximum)) finish) := by
  obtain ⟨rfl, _⟩ := Plan.eq_forMany_of_make hKind hPlan
  have hRequest := Plan.request_forMany hScope hFilters q.order q.limit q.page
  have hStrategy : (Plan.forMany q.subject q.clauses q.order q.limit q.page).strategy =
      .limited limit := by
    rw [hLimit]
    rfl
  obtain ⟨finish, hFew, hMany⟩ :=
    Plan.leads_fetch_limited maximum hOnline hRequest rfl hStrategy
  have hPlanned := leads_planned hPlan store
  exact ⟨finish, fun hSmall => hPlanned.bind (Plan.leads_select hCheck (hFew hSmall)),
    fun hLarge => hPlanned.bind (Plan.leads_select hCheck (hMany hLarge))⟩

/-- A select without a limit that succeeds has fetched all that match, and they
were not too many. -/
theorem unlimited_ok {plan : Plan} {page : Option Nat} {documents : List Document}
    (hKind : q.subject.kind ≠ .document) (hPage : ∀ size ∈ page, 0 < size)
    (hPlan : q.plan = .ok plan) (hScope : Plan.scopeOf q.subject = .ok scope)
    (hFilters : (q.clauses.filter fun clause => !clause.isLocal).mapM Plan.filterOf = .ok filters)
    (h : resultOf (selection { q with limit := none, page } maximum) store = .ok documents) :
    let request : FetchRequest := { scope, filters, orders := Plan.ordersOf q.order }
    request.matching store ≤ maximum ∧
      documents = sortDocuments plan.localOrder
        (filterDocuments plan.localClauses (request.ranked store.documents.toList)) := by
  obtain ⟨rfl, _⟩ := Plan.eq_forMany_of_make hKind hPlan
  have hRequest := Plan.request_forMany hScope hFilters q.order none none
  have hSingle :=
    (resultOf_selection_page { q with limit := none } hPage maximum store documents).mp h
  have hMake : Select.plan { q with limit := none, page := none } =
      .ok (Plan.forMany q.subject q.clauses q.order none none) :=
    Plan.make_eq_forMany hKind hPlan none none
  rw [resultOf_selection hMake] at hSingle
  obtain ⟨_, found, hFetch, rfl⟩ := Plan.select_eq_ok hSingle
  obtain ⟨_, hMaximum, rfl⟩ :=
    (Plan.fetch_unbounded_eq_ok_iff maximum store hRequest rfl rfl rfl).mp hFetch
  exact ⟨hMaximum, rfl⟩

end Select

namespace Engine

variable {q : Select} {world : World} {finish : Store} {documents : List Document}

/-- A select without group, function and output gives one record for each
document that it selects. -/
theorem leads_select_plain (engine : Engine) (hGroup : q.group = none)
    (hAggregate : q.aggregate = none) (hOutput : q.output = none)
    (h : Leads (q.selection engine.maximum) world.store (.ok documents) finish) :
    Leads (engine.select q) world
      (.ok (.documents (.array (documents.map q.projection.record))))
        { world with store := finish } := by
  have hSelect := engine.leads_select h
  rw [hGroup, hAggregate, hOutput] at hSelect
  exact hSelect

/-- A plain select that succeeds gives the records of what it selects, in their
order. -/
theorem select_plain_eq_ok (engine : Engine) (hGroup : q.group = none)
    (hAggregate : q.aggregate = none) (hOutput : q.output = none) {outcome : Outcome}
    (h : resultOf (engine.select q) world = .ok outcome) :
    ∃ documents, resultOf (q.selection engine.maximum) world.store = .ok documents ∧
      outcome = .documents (.array (documents.map q.projection.record)) := by
  have hSelection := leads_of (q.selection engine.maximum) world.store
  cases hResult : resultOf (q.selection engine.maximum) world.store with
  | ok documents =>
      rw [hResult] at hSelection
      rw [(engine.leads_select_plain hGroup hAggregate hOutput hSelection).resultOf_eq] at h
      exact ⟨documents, rfl, (Except.ok.inj h).symm⟩
  | error fault =>
      rw [hResult] at hSelection
      rw [(engine.leads_select_of_error hSelection).resultOf_eq] at h
      cases h

end Engine

/-- What becomes of a select with a limit on a store that is online, by the
explanation of the select. -/
structure Select.Limited (q : Select) (limit : Nat) (explanation : Explanation) (engine : Engine)
    (world : World) : Prop where
  /-- If no warning is about the limit, the select gives the first of the
  records that it gives without the limit, in pages or not. A page is of at
  least one document, as it is in every statement that can be read. -/
  firsts : (∀ n, Warning.limitBeforeFilter n ∉ explanation.warnings ∧
      Warning.limitBeforeSort n ∉ explanation.warnings) →
    ∀ page : Option Nat, (∀ size ∈ page, 0 < size) → ∀ outcome,
      resultOf (engine.select { q with limit := none, page }) world = .ok outcome →
      ∃ rows, outcome = .documents (.array rows) ∧
        resultOf (engine.select q) world = .ok (.documents (.array (rows.take limit)))
  /-- Warned of or not, it fails if and only if the documents that match and are
  not cut off are too many, and then for that reason. -/
  failed_iff : ∃ scope filters, Plan.scopeOf q.subject = .ok scope ∧
    (q.clauses.filter fun clause => !clause.isLocal).mapM Plan.filterOf = .ok filters ∧
    ∃ count, count = min limit (FetchRequest.matching
      { scope, filters, orders := Plan.ordersOf q.order } world.store) ∧
    ∀ fault, resultOf (engine.select q) world = .error fault ↔
      engine.maximum < count ∧ fault = .tooMany count engine.maximum

/-- The warnings about limits are complete. A select that can be explained, has
a limit and neither group nor function nor output gives the first records of
what it would give without the limit, unless it is warned that the limit comes
too early; and it fails only for fetching too much, where what the limit cuts
off does not count. -/
theorem Engine.limit_warnings_complete (engine : Engine) (world : World)
    (hOnline : world.store.offline = false) (q : Select) {limit : Nat}
    (hKind : q.subject.kind ≠ .document) (hLimit : q.limit = some limit) (hGroup : q.group = none)
    (hAggregate : q.aggregate = none) (hOutput : q.output = none) {explanation : Explanation}
    (hExplain : (Query.select q).explain = .ok explanation) :
    q.Limited limit explanation engine world := by
  rcases (Query.select q).explain_cases (bind_pure_comp some q.plan) with
    ⟨fault, hRefused, _⟩ | ⟨plan, hPlan, hCheck, hExplained⟩
  · cases hRefused.symm.trans hExplain
  obtain rfl := Except.ok.inj (hExplained.symm.trans hExplain)
  obtain ⟨hForMany, hSupported⟩ := Plan.eq_forMany_of_make hKind hPlan
  obtain ⟨scope, filters, hScope, hFilters, _⟩ := Plan.exists_request q.order hKind hSupported
  obtain ⟨finish, hFew, hMany⟩ :=
    q.leads_limited hKind hLimit hPlan hCheck hScope hFilters engine.maximum hOnline
  constructor
  · intro hSilent page hPage outcome hOutcome
    have hStrategy : plan.strategy = .limited limit := by
      rw [hForMany, hLimit]
      rfl
    obtain ⟨hClauses, hOrder⟩ := Plan.nothing_local_of_no_warning hStrategy hSilent
    obtain ⟨documents, hSelection, rfl⟩ :=
      engine.select_plain_eq_ok (q := { q with limit := none, page }) hGroup hAggregate hOutput
        hOutcome
    obtain ⟨hMaximum, rfl⟩ := Select.unlimited_ok hKind hPage hPlan hScope hFilters hSelection
    have hLimited := engine.leads_select_plain hGroup hAggregate hOutput
      (hFew (Nat.le_trans (Nat.min_le_right _ _) hMaximum))
    refine ⟨_, rfl, ?_⟩
    rw [hLimited.resultOf_eq, hClauses, hOrder, filterDocuments_nil, filterDocuments_nil,
      sortDocuments_nil, sortDocuments_nil, List.map_take]
  · refine ⟨scope, filters, hScope, hFilters, _, rfl, fun fault => ?_⟩
    by_cases hFits : min limit (FetchRequest.matching
        { scope, filters, orders := Plan.ordersOf q.order } world.store) ≤ engine.maximum
    · rw [(engine.leads_select_plain hGroup hAggregate hOutput (hFew hFits)).resultOf_eq]
      exact ⟨nofun, fun hMore => absurd hFits (Nat.not_le_of_lt hMore.1)⟩
    · have hBeyond := Nat.lt_of_not_le hFits
      rw [(engine.leads_select_of_error (hMany hBeyond)).resultOf_eq]
      exact ⟨fun hError => ⟨hBeyond, (Except.error.inj hError).symm⟩, fun hMore => by rw [hMore.2]⟩

/-- The first of two users. -/
def Select.firstUser : Select :=
  ⟨⟨"users", .collection⟩, [], .all, some 1, none, [], none, none, none⟩

/-- The first user of two is found, and is already too much for an engine that
may fetch nothing. -/
theorem Engine.limit_warnings_complete_tied :
    resultOf (Engine.select { maximum := 5 } .firstUser) ⟨Store.tied, .none⟩ =
      .ok (.documents (.array
        [.object [("age", .number (.real (Double.ofInt 7))), ("_path", .string "users/a")]])) ∧
    resultOf (Engine.select { maximum := 0 } .firstUser) ⟨Store.tied, .none⟩ =
      .error (.tooMany 1 0) := by
  have hPlan : Select.firstUser.plan =
      .ok (.forMany ⟨"users", .collection⟩ [] [] (some 1) none) := by
    have hCollection : Path.isDocument "users" = false := by decide +kernel
    rw [Select.plan, Plan.make, Select.firstUser, if_neg (by simp), if_neg (by simp [hCollection])]
    rfl
  have hExplain : (Query.select .firstUser).explain = .ok (.ofPlan (.select .firstUser)
      (some (.forMany ⟨"users", .collection⟩ [] [] (some 1) none))) := by
    simp only [Query.explain, Query.plan?, hPlan]
    rfl
  have hLimited (maximum : Nat) := limit_warnings_complete { maximum } ⟨Store.tied, .none⟩ rfl
    .firstUser (by simp [Select.firstUser]) rfl rfl rfl rfl hExplain
  constructor
  · have hAll : resultOf (Select.selection { Select.firstUser with limit := none } 5) Store.tied =
        .ok Store.tied.documents.toList :=
      Store.resultOf_selection_tied Store.tied rfl rfl (Or.inl rfl)
    have hLeads := leads_of (Select.selection { Select.firstUser with limit := none } 5) Store.tied
    rw [hAll] at hLeads
    have hOutcome := (@leads_select_plain _ ⟨Store.tied, .none⟩ _ _ { maximum := 5 } rfl rfl rfl
      hLeads).resultOf_eq
    obtain ⟨rows, hRows, hFirst⟩ :=
      (hLimited 5).firsts (fun n => ⟨List.not_mem_nil, List.not_mem_nil⟩) none (by simp) _ hOutcome
    obtain rfl := Value.array.inj (Outcome.documents.inj hRows)
    rw [hFirst, Store.toList_tied]
    rfl
  · obtain ⟨scope, filters, hScope, hFilters, count, hCount, hFailed⟩ := (hLimited 0).failed_iff
    obtain rfl := Except.ok.inj hScope
    obtain rfl := Except.ok.inj hFilters
    rw [FetchRequest.matching, Store.toList_tied] at hCount
    obtain rfl : count = 1 := hCount
    exact (hFailed _).mpr ⟨Nat.one_pos, rfl⟩

end DocQuery
