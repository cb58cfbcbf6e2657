import DocQuery.Execution.Explanation
import DocQuery.Proofs.Execution.Failure
import DocQuery.Proofs.Selection.Plans

/-! The checks of a statement and of its explanation. Running makes the checks
of explaining first and in the same order, so both refuse the same statements
and for the same reason. -/
namespace DocQuery

section Checks

variable {α β σ : Type}

theorem NeverEarly.onStore {access : Access α} (h : NeverEarly access) :
    NeverEarly (Run.onStore access) := by
  intro world fault hFault
  apply h world.store fault
  rw [← hFault]
  exact (leads_of access world.store).onStore.resultOf_eq.symm

namespace Plan

variable {plan : Plan}

/-- A plan that is ready leaves nothing to be checked. -/
theorem neverEarly_fetch (h : plan.Ready) (maximum : Nat) : NeverEarly (plan.fetch maximum) := by
  rw [fetch]
  rcases h with hDocument | ⟨request, hRequest⟩
  · rw [hDocument]
    exact (neverEarly_call _).bind fun _ => neverEarly_pure _
  · simp only [hRequest, planned_ok_bind]
    cases plan.strategy with
    | document => exact (neverEarly_call _).bind fun _ => neverEarly_pure _
    | limited limit => exact neverEarly_fetchAll _ maximum
    | unbounded => exact neverEarly_fetchAll _ maximum
    | paged size => exact fun store => neverEarly_fetchBatches _ _ _ _ _ store

/-- A plan whose clauses were checked gives no error that belongs before the
store. -/
theorem neverEarly_selecting (h : plan.Ready) (hCheck : checkClauses plan.localClauses = .ok ())
    (maximum : Nat) : NeverEarly (selecting (.ok plan) maximum) := by
  rw [selecting, planned_ok_bind, select, hCheck, planned_ok_bind]
  exact (neverEarly_fetch h maximum).bind fun _ => neverEarly_pure _

end Plan

namespace Query

variable {query : Query}

/-- A statement that begins with a selection is refused by its explanation if
and only if it is by the selection. -/
theorem explain_cases {made : Except PlanError Plan} (h : query.plan? = some <$> made) :
    (∃ fault, query.explain = .error fault ∧ ∀ maximum store,
      Leads (Plan.selecting made maximum) store (.error (.unplannable fault)) store) ∨
    ∃ plan, made = .ok plan ∧ checkClauses plan.localClauses = .ok () ∧
      query.explain = .ok (.ofPlan query (some plan)) := by
  cases made with
  | error fault =>
      have hExplain : query.explain = .error fault := by
        rw [explain, h]
        rfl
      exact Or.inl ⟨fault, hExplain, fun _ store =>
        (leads_planned_of_error rfl store).bind_error⟩
  | ok plan =>
      have hExplain : query.explain =
          (checkClauses plan.localClauses >>= fun _ => pure (.ofPlan query (some plan))) := by
        rw [explain, h]
        rfl
      cases hCheck : checkClauses plan.localClauses with
      | error fault =>
          rw [hCheck] at hExplain
          exact Or.inl ⟨fault, hExplain, fun maximum store =>
            (leads_planned rfl store).bind (Plan.leads_select_of_unchecked hCheck maximum store)⟩
      | ok _ =>
          rw [hCheck] at hExplain
          exact Or.inr ⟨plan, rfl, hCheck, hExplain⟩

theorem explain_of_no_plan (h : query.plan? = .ok none) :
    query.explain = .ok (.ofPlan query none) := by
  rw [explain, h]
  rfl

end Query

/-- A show that is not about one document plans what a select without clauses
does. -/
theorem Show.exists_make_of_target {subject : Subject} {found : ShowTarget}
    (hKind : subject.kind ≠ .document) (h : target ⟨some subject⟩ = .ok found) :
    ∃ plan, Plan.make subject [] [] none none = .ok plan ∧ found = .below plan := by
  simp only [target, if_neg hKind] at h
  cases hMake : Plan.make subject [] [] none none with
  | error fault =>
      rw [hMake] at h
      cases h
  | ok plan =>
      rw [hMake] at h
      exact ⟨plan, rfl, (Except.ok.inj h).symm⟩

/-- A show looks below the documents of a plan for its subject without clauses
or order. -/
theorem Show.make_of_target {q : Show} {plan : Plan} (h : q.target = .ok (.below plan)) :
    ∃ subject, q.subject = some subject ∧ Plan.make subject [] [] none none = .ok plan := by
  obtain ⟨subject?⟩ := q
  cases subject? with
  | none => cases h
  | some subject =>
      by_cases hKind : subject.kind = .document
      · simp only [target, if_pos hKind] at h
        cases h
      · obtain ⟨found, hMake, hFound⟩ := exists_make_of_target hKind h
        obtain rfl := ShowTarget.below.inj hFound
        exact ⟨subject, rfl, hMake⟩

/-- A show has no clauses, so there are no patterns to be checked either. -/
theorem Show.explain_of_target {q : Show} {plan : Plan} (h : q.target = .ok (.below plan)) :
    plan.Ready ∧ (Query.show q).explain = .ok (.ofPlan (.show q) (some plan)) := by
  obtain ⟨subject, _, hMake⟩ := make_of_target h
  refine ⟨Plan.ready_of_make hMake, ?_⟩
  rw [Query.explain, Query.plan?, h]
  rcases Plan.make_eq_ok hMake with rfl | ⟨rfl, _⟩
  · rfl
  · rfl

namespace Engine

/-- How a statement and its explanation agree before the store is asked. -/
inductive ChecksAsExplained (query : Query) (work : Run Outcome) : Prop
  | refused {fault : PlanError} (hExplain : query.explain = .error fault)
      (hRun : ∀ world, resultOf work world = .error (.unplannable fault))
  | passed {explanation : Explanation} (hExplain : query.explain = .ok explanation)
      (hRun : NeverEarly work)

/-- Statements that begin with a selection and then do what cannot fail
early. -/
theorem checksAsExplained_selecting {query : Query} {made : Except PlanError Plan}
    (hPlan : query.plan? = some <$> made) (hReady : ∀ plan, made = .ok plan → plan.Ready)
    (maximum : Nat) {next : List Document → Access α}
    (hNext : ∀ documents, NeverEarly (next documents))
    {last : α → Run Outcome} (hLast : ∀ a, NeverEarly (last a)) :
    ChecksAsExplained query (Run.onStore (Plan.selecting made maximum >>= next) >>= last) := by
  rcases query.explain_cases hPlan with ⟨fault, hExplain, hLeads⟩ | ⟨plan, rfl, hCheck, hExplain⟩
  · apply ChecksAsExplained.refused hExplain
    intro world
    exact (hLeads maximum world.store).bind_error.onStore.bind_error.resultOf_eq
  · have hSelecting := Plan.neverEarly_selecting (hReady plan rfl) hCheck maximum
    exact .passed hExplain ((hSelecting.bind hNext).onStore.bind hLast)

/-- A statement that writes is refused before the store exactly if its selection
is. -/
theorem checksAsExplained_writeSelected (engine : Engine) {query : Query}
    {made : Except PlanError Plan} (hPlan : query.plan? = some <$> made)
    (hReady : ∀ plan, made = .ok plan → plan.Ready) (write : String → StoreM Unit) :
    ChecksAsExplained query (engine.writeSelected made write) := by
  have hEach (documents : List Document) :
      NeverEarly (liftM (Store.writeEach write documents) : Access (Nat × List String)) := by
    intro store fault hFault
    cases hFault
  rw [writeSelected_eq, ← bind_pure (Run.onStore _)]
  apply checksAsExplained_selecting hPlan hReady engine.maximum _ neverEarly_pure
  intro documents
  exact (hEach documents).bind fun _ => neverEarly_pure _

/-- A show is refused before the store exactly if its target is. -/
theorem checksAsExplained_show (engine : Engine) (q : Show) :
    ChecksAsExplained (.show q) (engine.showCollections q) := by
  have hNames (parent : Option String) : NeverEarly
      (do return .collections (← Access.call (Store.listCollections parent)) : Access Outcome) :=
    (neverEarly_call _).bind fun _ => neverEarly_pure _
  cases hTarget : q.target with
  | error fault =>
      have hExplain : (Query.show q).explain = .error fault := by
        rw [Query.explain, Query.plan?, hTarget]
        rfl
      exact .refused hExplain fun world =>
        (leads_planned_of_error hTarget world.store).bind_error.onStore.resultOf_eq
  | ok target =>
      rw [showCollections, hTarget, planned_ok_bind]
      cases target with
      | root =>
          have hPlan : (Query.show q).plan? = .ok none := by
            rw [Query.plan?, hTarget]
            rfl
          exact .passed (Query.explain_of_no_plan hPlan) (hNames none).onStore
      | document path =>
          have hPlan : (Query.show q).plan? = .ok none := by
            rw [Query.plan?, hTarget]
            rfl
          exact .passed (Query.explain_of_no_plan hPlan) (hNames (some path)).onStore
      | below plan =>
          obtain ⟨hReady, hExplain⟩ := Show.explain_of_target hTarget
          have hFetch := (Plan.neverEarly_fetch hReady engine.maximum).bind fun documents =>
            (neverEarly_call (Store.collectionsBelow documents)).bind fun names =>
              neverEarly_pure (Outcome.collections names)
          exact .passed hExplain hFetch.onStore

/-- Executing refuses before the store what explaining refuses, with the same
error. -/
theorem checksAsExplained_execute (engine : Engine) (query : Query) :
    ChecksAsExplained query (engine.execute query) := by
  cases query with
  | select q =>
      have hPlan : (Query.select q).plan? = some <$> q.plan := bind_pure_comp some q.plan
      have hChecks := checksAsExplained_selecting hPlan (fun _ => Plan.ready_of_make)
        engine.maximum neverEarly_pure fun documents =>
          engine.neverEarly_output q.output documents.length
            (arrange q.projection q.group q.aggregate documents)
      rwa [bind_pure] at hChecks
  | update q =>
      have hPlan : (Query.update q).plan? = some <$> q.plan := bind_pure_comp some q.plan
      exact checksAsExplained_writeSelected engine hPlan (fun _ => Plan.ready_of_make) _
  | delete q =>
      have hPlan : (Query.delete q).plan? = some <$> q.plan := bind_pure_comp some q.plan
      exact checksAsExplained_writeSelected engine hPlan (fun _ => Plan.ready_of_make) _
  | insert q =>
      cases hCheck : q.check with
      | error fault =>
          have hExplain : (Query.insert q).explain = .error fault := by
            rw [Query.explain, Query.plan?, hCheck]
            rfl
          exact .refused hExplain fun world =>
            (leads_planned_of_error hCheck world.store).bind_error.onStore.resultOf_eq
      | ok _ =>
          have hPlan : (Query.insert q).plan? = .ok none := by
            rw [Query.plan?, hCheck]
            rfl
          have hRun : NeverEarly (execute engine (.insert q)) := by
            rw [execute, insert, hCheck, planned_ok_bind]
            exact ((neverEarly_call _).bind fun _ => neverEarly_pure _).onStore
          exact .passed (Query.explain_of_no_plan hPlan) hRun
  | «show» q => exact engine.checksAsExplained_show q

end Engine

end Checks

end DocQuery
