import DocQuery.Proofs.Execution.Checks
import DocQuery.Proofs.Execution.Updates
import DocQuery.Proofs.Grammar.Causes
import DocQuery.Proofs.Query.RoundTrip

/-! Checks that never find anything. Some faults are only looked for because
the part that looks cannot know that an earlier part has excluded them: what
a text means has no `like` for the store, a plan for one document asks for
no request, digits are numerals, and an update writes to documents that it
has just found. -/
namespace DocQuery

/-- A fault of a plan that no statement of a text has. -/
def PlanError.IsDefence : PlanError → Prop
  | .localOnly _ _ => True
  | .notQueryable _ => True
  | .notACollection _ => False
  | .notInsertable _ => False
  | .invalidPattern _ _ => False

/-- An error with which no text is answered. -/
def QueryError.IsDefence : QueryError → Prop
  | .malformed error => ∃ digits, error.cause = .malformedNumber digits
  | .unplannable error => error.IsDefence
  | .store _ => False
  | .output _ => False
  | .tooMany _ _ => False

/-- What the defences refuse is refused before the store is asked. -/
theorem QueryError.IsDefence.isEarly {fault : QueryError} (h : fault.IsDefence) :
    fault.IsEarly := by
  cases fault with
  | malformed error => trivial
  | unplannable error => trivial
  | store error => exact h
  | output error => exact h
  | tooMany fetched maximum => exact h

section Plans

variable {subject : Subject} {clauses : List Clause} {order : List OrderKey}
  {limit page : Option Nat}

/-- Only `like` cannot be asked of the store. -/
theorem Operator.eq_like_of_remote {operator : Operator} (h : operator.remote?.isNone = true) :
    operator = .like := by
  cases operator with
  | like => rfl
  | _ => cases h

/-- The store is never asked for what it cannot evaluate if every `like` is
local. -/
theorem Plan.not_isDefence_of_make (hClauses : ∀ clause ∈ clauses, clause.WellFormed)
    {fault : PlanError} (h : make subject clauses order limit page = .error fault) :
    ¬ fault.IsDefence := by
  rw [make] at h
  split at h
  · cases h
  split at h
  · obtain rfl := Except.error.inj h
    exact id
  · dsimp only at h
    split at h
    · rename_i clause hUnsupported
      obtain ⟨hMember, hRemote⟩ := List.mem_filter.mp (List.mem_of_find?_eq_some hUnsupported)
      have hNone : clause.operator.remote?.isNone = true :=
        List.find?_some (p := fun (other : Clause) => other.operator.remote?.isNone) hUnsupported
      have hLike := Operator.eq_like_of_remote hNone
      rw [(hClauses clause hMember).2 hLike] at hRemote
      cases hRemote
    · cases h

/-- A clause is refused for its pattern, which is no defence. -/
theorem Clause.not_isDefence_of_check {clause : Clause} {fault : PlanError}
    (h : clause.check = .error fault) : ¬ fault.IsDefence := by
  rw [check] at h
  split at h
  · split at h
    · cases h
    · obtain rfl := Except.error.inj h
      exact id
  · obtain rfl := Except.error.inj h
    exact id
  · cases h

theorem not_isDefence_of_checkClauses {fault : PlanError}
    (h : checkClauses clauses = .error fault) :
    ¬ fault.IsDefence := by
  induction clauses with
  | nil => cases h
  | cons clause rest ih =>
      change (clause.check >>= fun _ => checkClauses rest) = _ at h
      cases hCheck : clause.check with
      | ok _ =>
          rw [hCheck] at h
          exact ih h
      | error other =>
          rw [hCheck] at h
          obtain rfl := Except.error.inj h
          exact Clause.not_isDefence_of_check hCheck

theorem Show.not_isDefence_of_target {q : Show} {fault : PlanError} (h : q.target = .error fault) :
    ¬ fault.IsDefence := by
  rw [target] at h
  split at h
  · cases h
  split at h
  · cases h
  · rename_i subject _ _
    cases hMake : Plan.make subject [] [] none none with
    | ok plan =>
        rw [hMake] at h
        cases h
    | error other =>
        rw [hMake] at h
        obtain rfl := Except.error.inj h
        exact Plan.not_isDefence_of_make (List.forall_mem_nil _) hMake

/-- What a text means can be planned, but for faults that are not defences. -/
theorem Query.not_isDefence_of_plan {query : Query} (hWell : query.WellFormed) {fault : PlanError}
    (h : query.plan? = .error fault) : ¬ fault.IsDefence := by
  have hMake (made : Except PlanError Plan) (hMade : (some <$> made) = .error fault)
      (hFaults : ∀ fault, made = .error fault → ¬ fault.IsDefence) : ¬ fault.IsDefence := by
    cases made with
    | ok plan => cases hMade
    | error other =>
        obtain rfl := Except.error.inj hMade
        exact hFaults _ rfl
  cases query with
  | select q =>
      exact hMake q.plan h fun _ => Plan.not_isDefence_of_make hWell.clauses
  | update q =>
      exact hMake q.plan h fun _ => Plan.not_isDefence_of_make hWell.clauses_wellFormed
  | delete q =>
      exact hMake q.plan h fun _ => Plan.not_isDefence_of_make hWell.clauses_wellFormed
  | insert q =>
      cases hCheck : q.check with
      | ok _ =>
          rw [plan?, hCheck] at h
          cases h
      | error other =>
          rw [plan?, hCheck] at h
          obtain rfl := Except.error.inj h
          rw [Insert.check] at hCheck
          split at hCheck
          · obtain rfl := Except.error.inj hCheck
            exact id
          · cases hCheck
  | «show» q =>
      cases hTarget : q.target with
      | ok target =>
          rw [plan?, hTarget] at h
          cases target <;> cases h
      | error other =>
          rw [plan?, hTarget] at h
          obtain rfl := Except.error.inj h
          exact Show.not_isDefence_of_target hTarget

/-- A query that is well formed is never refused by a defence. -/
theorem Query.not_isDefence_of_explain {query : Query} (hWell : query.WellFormed)
    {fault : PlanError} (h : query.explain = .error fault) : ¬ fault.IsDefence := by
  rw [explain] at h
  cases hPlan : query.plan? with
  | error other =>
      rw [hPlan] at h
      obtain rfl := Except.error.inj h
      exact not_isDefence_of_plan hWell hPlan
  | ok plan =>
      rw [hPlan] at h
      cases hCheck : checkClauses ((plan.map Plan.localClauses).getD []) with
      | error other =>
          change (checkClauses _ >>= _) = _ at h
          rw [hCheck] at h
          obtain rfl := Except.error.inj h
          exact not_isDefence_of_checkClauses hCheck
      | ok _ =>
          change (checkClauses _ >>= _) = _ at h
          rw [hCheck] at h
          cases h

/-- The request has a filter for every clause that is not local and an order for
every such key, each in its place. -/
structure Plan.AsksForEach (clauses : List Clause) (order : List OrderKey)
    (request : FetchRequest) :
    Prop where
  filters : List.Forall₂ (fun clause filter => filter.field = clause.property ∧
      clause.operator.remote? = some filter.operator ∧ filter.value = clause.value.toValue)
    (clauses.filter fun clause => !clause.isLocal) request.filters
  orders : List.Forall₂
    (fun key order => order.field = key.property ∧ order.direction = key.direction)
    (order.filter fun key => !key.isLocal) request.orders

/-- What could be planned can be asked for, whoever wrote the clauses. -/
theorem Plan.asksForEach_of_make {plan : Plan} (hKind : subject.kind ≠ .document)
    (h : make subject clauses order limit page = .ok plan) :
    ∃ request, plan.request = .ok request ∧ AsksForEach clauses order request := by
  obtain ⟨rfl, hSupported⟩ := eq_forMany_of_make hKind h
  obtain ⟨scope, filters, _, hFilters, hRequest⟩ := exists_request order hKind hSupported
  refine ⟨_, hRequest limit page, ?_, ?_⟩
  · refine (Grammar.mapM_ok hFilters).imp fun clause filter hFilter => ?_
    rw [filterOf] at hFilter
    split at hFilter
    · rename_i operator hOperator
      obtain rfl := Except.ok.inj hFilter
      exact ⟨rfl, hOperator, rfl⟩
    · cases hFilter
  · rw [ordersOf, List.forall₂_map_right_iff]
    exact List.forall₂_same.mpr fun key _ => ⟨rfl, rfl⟩

end Plans

namespace Store

/-- Writes to each of the documents in turn and collects what the store answers,
by path. -/
def answersOf (write : String → StoreM Unit) :
    List Document → StateM Store (List (String × Except StoreError Unit))
  | [] => return []
  | document :: rest => do
      let answer ← (write document.path).run
      let answers ← answersOf write rest
      return (document.path, answer) :: answers

/-- Whether a write has failed. -/
def isFailure : Except StoreError Unit → Bool
  | .ok _ => false
  | .error _ => true

/-- The number of writes that succeeded, and the paths of those that did not. -/
def tally (answers : List (String × Except StoreError Unit)) : Nat × List String :=
  ((answers.filter fun answer => !isFailure answer.2).length,
    (answers.filter fun answer => isFailure answer.2).map Prod.fst)

/-- Answers are collected document by document, each from the store that the one
before it left. -/
theorem run_answersOf_cons {write : String → StoreM Unit} (document : Document)
    (rest : List Document) (store : Store) :
    (answersOf write (document :: rest)).run store =
      ((document.path, resultOf (write document.path) store) ::
        ((answersOf write rest).run (finishOf (write document.path) store)).1,
        ((answersOf write rest).run (finishOf (write document.path) store)).2) := by
  rfl

/-- A statement that writes reports a tally of the answers. -/
theorem run_writeEach_eq (write : String → StoreM Unit) (documents : List Document)
    (store : Store) :
    (writeEach write documents).run store =
      (tally ((answersOf write documents).run store).1,
        ((answersOf write documents).run store).2) := by
  induction documents generalizing store with
  | nil => rfl
  | cons document rest ih =>
      have hWrite := leads_of (write document.path) store
      cases hAnswer : resultOf (write document.path) store with
      | ok _ =>
          rw [hAnswer] at hWrite
          rw [run_writeEach_cons hWrite (ih _), run_answersOf_cons, hAnswer]
          simp [tally, isFailure]
      | error fault =>
          rw [hAnswer] at hWrite
          rw [run_writeEach_cons hWrite (ih _), run_answersOf_cons, hAnswer]
          simp [tally, isFailure]

/-- What holds of the answer to every single write holds of all answers, if the
writes keep what it rests on. -/
theorem forall_answersOf {P : Store → Prop} {write : String → StoreM Unit}
    {documents : List Document} (good : String → Except StoreError Unit → Prop)
    (hKeeps : ∀ document ∈ documents, Keeps P (write document.path))
    (hGood : ∀ document ∈ documents, ∀ store, P store →
      good document.path (resultOf (write document.path) store)) {store : Store} (h : P store) :
    ∀ answer ∈ ((answersOf write documents).run store).1, good answer.1 answer.2 := by
  induction documents generalizing store with
  | nil => exact List.forall_mem_nil _
  | cons document rest ih =>
      obtain ⟨hHere, hThere⟩ := List.forall_mem_cons.mp hKeeps
      obtain ⟨hFirst, hRest⟩ := List.forall_mem_cons.mp hGood
      rw [run_answersOf_cons]
      exact List.forall_mem_cons.mpr ⟨hFirst store h, ih hThere hRest (hHere store h)⟩

/-- The store is online and has a document at each of some paths. -/
def Holds (paths : List String) (store : Store) : Prop :=
  store.offline = false ∧ ∀ path ∈ paths, ∃ fields, store.documents.get? path = some fields

/-- An update removes no document. -/
theorem keeps_holds_update (paths : List String) (path : String) (patch : Fields) :
    Keeps (Holds paths) (Store.update path patch) := by
  rintro store ⟨hOnline, hThere⟩
  rw [finishOf_update]
  cases hFound : store.updatable path with
  | error fault => exact ⟨hOnline, hThere⟩
  | ok fields =>
      obtain ⟨_, _, hGet⟩ := updatable_eq_ok_iff.mp hFound
      refine ⟨hOnline, fun other hOther => ?_⟩
      obtain ⟨found, hOld⟩ := hThere other hOther
      by_cases hSame : other = Path.trim path
      · refine ⟨fields.merge patch, ?_⟩
        rw [hSame]
        exact Documents.get?_put_of_get? hGet _
      · refine ⟨found, Documents.get?_eq_some_iff.mpr ?_⟩
        change _ ∈ (store.documents.put (Path.trim path) _).toList
        rw [Documents.toList_put hGet]
        exact List.mem_map.mpr ⟨_, Documents.mem_of_get? hOld, if_neg hSame⟩

/-- An update of a document that is there fails for nothing but that writes to
it fail. -/
theorem eq_write_of_update {paths : List String} {store : Store} (h : Holds paths store)
    {path : String}
    (hPath : path ∈ paths) (hTrimmed : Path.Trimmed path) {patch : Fields} {fault : StoreError}
    (hFault : resultOf (Store.update path patch) store = .error fault) :
    fault = .unavailable (.write path) := by
  obtain ⟨hOnline, hThere⟩ := h
  obtain ⟨fields, hGet⟩ := hThere path hPath
  rw [resultOf_update, updatable, Path.trim_eq_self hTrimmed, hOnline, hGet] at hFault
  cases hFailing : store.failing.contains path with
  | true =>
      rw [hFailing] at hFault
      exact (Except.error.inj hFault).symm
  | false =>
      rw [hFailing] at hFault
      cases hFault

end Store

namespace Engine

/-- What a text never meets: an error that is only guarded against, and a
document that an update has selected and then does not find. -/
structure MeetsNoDefence (engine : Engine) (text : String) (world : World) : Prop where
  faults : ∀ fault, resultOf (engine.run text) world = .error fault → ¬ fault.IsDefence
  /-- The paths that an update reports are those at which the store has refused
  the write. -/
  writes : ∀ q, Query.ofText text = .ok (.update q) → ∀ count failed,
    resultOf (engine.run text) world = .ok (.written count failed) →
    ∃ documents middle, Leads ((Select.every q.subject q.clauses).selection engine.maximum)
        world.store (.ok documents) middle ∧
      ∃ answers, (Store.answersOf (fun path => Store.update path (patchOf q.setters)) documents).run
          middle = (answers, (finishOf (engine.run text) world).store) ∧
        (count, failed) = Store.tally answers ∧
        ∀ answer ∈ answers, ∀ fault, answer.2 = .error fault →
          fault = .unavailable (.write answer.1)

/-- No text is answered with a fault that is only guarded against. -/
theorem not_isDefence_of_run (engine : Engine) (text : String) (world : World) {fault : QueryError}
    (h : resultOf (engine.run text) world = .error fault) : ¬ fault.IsDefence := by
  rw [run] at h
  cases hQuery : Query.ofText text with
  | error error =>
      rw [hQuery] at h
      obtain rfl := Except.error.inj ((leads_throw _ world).resultOf_eq.symm.trans h)
      rintro ⟨digits, hCause⟩
      exact Query.cause_ne_malformedNumber hQuery digits hCause
  | ok query =>
      rw [hQuery] at h
      cases engine.checksAsExplained_execute query with
      | refused hExplain hRun =>
          obtain rfl := Except.error.inj ((hRun world).symm.trans h)
          exact Query.not_isDefence_of_explain (Query.wellFormed_of_ofText hQuery) hExplain
      | passed _ hRun => exact fun hDefence => hRun world fault h hDefence.isEarly

/-- An update reports the paths at which the store has refused the write. -/
theorem leads_update_answers (engine : Engine) (q : Update) {world : World}
    (hAddressed : world.store.WellAddressed) {documents : List Document}
    (h : resultOf ((Select.every q.subject q.clauses).selection engine.maximum) world.store =
      .ok documents) :
    ∃ middle answers finish, Leads ((Select.every q.subject q.clauses).selection engine.maximum)
        world.store (.ok documents) middle ∧
      (Store.answersOf (fun path => Store.update path (patchOf q.setters)) documents).run middle =
        (answers, finish) ∧
      Leads (engine.update q) world
        (.ok (.written (Store.tally answers).1 (Store.tally answers).2))
          { world with store := finish } ∧
      ∀ answer ∈ answers, ∀ fault, answer.2 = .error fault →
        fault = .unavailable (.write answer.1) := by
  have hSelection :=
    leads_of ((Select.every q.subject q.clauses).selection engine.maximum) world.store
  rw [h] at hSelection
  obtain ⟨fetched, picked, hPicks⟩ := Select.exists_picks h
  obtain ⟨hOnline, _, _, hPicked⟩ := hPicks.of_ok h
  obtain ⟨hDocuments, hOffline⟩ :=
    (Select.every q.subject q.clauses).unchanged_by_selection engine.maximum world.store
  have hStored : ∀ document ∈ documents, document ∈ world.store.documents.toList :=
    fun document hDocument => ((hPicked document).mp hDocument).1
  have hHolds : Store.Holds (documents.map Document.path)
      (finishOf ((Select.every q.subject q.clauses).selection engine.maximum) world.store) := by
    refine ⟨hOffline.trans hOnline, fun path hPath => ?_⟩
    obtain ⟨document, hDocument, rfl⟩ := List.mem_map.mp hPath
    exact ⟨_, hDocuments ▸ Documents.get?_of_mem (hStored document hDocument)⟩
  refine ⟨_, _, _, hSelection, rfl, engine.leads_writeSelected _ hSelection
    (Store.run_writeEach_eq _ documents _), ?_⟩
  refine Store.forall_answersOf
    (fun path answer => ∀ fault, answer = .error fault → fault = .unavailable (.write path))
    (fun document _ => Store.keeps_holds_update _ document.path _) ?_ hHolds
  intro document hDocument store hStore fault hFault
  exact Store.eq_write_of_update hStore (List.mem_map_of_mem hDocument)
    (hAddressed document (hStored document hDocument)).1 hFault

/-- Checks behind other checks find nothing: no text is answered with a fault
that is only guarded against, no update fails at a document that it does not
find, and every plan that is not for one document has a request with all that it
leaves to the store. -/
theorem defences_find_nothing (engine : Engine) (text : String) {world : World}
    (h : world.store.Reachable) :
    engine.MeetsNoDefence text world ∧
    ∀ (subject : Subject) (clauses : List Clause) (order : List OrderKey) (limit page : Option Nat)
      (plan : Plan), subject.kind ≠ .document →
      Plan.make subject clauses order limit page = .ok plan →
        ∃ request, plan.request = .ok request ∧ Plan.AsksForEach clauses order request := by
  refine ⟨⟨fun _ => engine.not_isDefence_of_run text world, ?_⟩,
    fun _ _ _ _ _ _ => Plan.asksForEach_of_make⟩
  intro q hQuery count failed hResult
  have hRun : engine.run text = engine.update q := by
    rw [run, hQuery]
    rfl
  rw [hRun] at hResult ⊢
  cases hSelection : resultOf ((Select.every q.subject q.clauses).selection engine.maximum)
      world.store with
  | error fault =>
      have hFails := (engine.writesTo_writeSelected (Store.writesAs_update (patchOf q.setters))
        h.wellAddressed q.subject q.clauses).fails fault hSelection
      cases hFails.1.symm.trans hResult
  | ok documents =>
      obtain ⟨middle, answers, finish, hLeads, hAnswers, hUpdate, hEach⟩ :=
        engine.leads_update_answers q h.wellAddressed hSelection
      have hOutcome := Except.ok.inj (hUpdate.resultOf_eq.symm.trans hResult)
      obtain ⟨hCount, hFailed⟩ := Outcome.written.inj hOutcome
      refine ⟨documents, middle, hLeads, answers, ?_, ?_, hEach⟩
      · rw [hAnswers, hUpdate.finishOf_eq]
      · rw [← hCount, ← hFailed]

/-- The store refuses the only write of an update. -/
theorem resultOf_run_refusedWrite :
    resultOf (run {} "update at \"users/a\" set \"age\" = null")
      ⟨Store.tied.failWritesTo "users/a", .none⟩ = .ok (.written 0 ["users/a"]) := by
  let q : Update := ⟨⟨"users/a", .document⟩, [], [⟨"age", .null⟩]⟩
  let store : Store := Store.tied.failWritesTo "users/a"
  have hTrimmed : Path.Trimmed "users/a" := by decide +kernel
  have hQuery : Query.ofText "update at \"users/a\" set \"age\" = null" = .ok (.update q) := by
    have hDocument : Path.isDocument "users/a" = true := by decide +kernel
    have hWell : q.WellFormed := by
      refine ⟨⟨fun _ => ⟨hTrimmed, hDocument⟩, by decide, List.forall_mem_nil _, ?_⟩, ?_, ?_⟩
      · rintro ⟨⟩
      · exact List.forall_mem_singleton.mpr trivial
      · exact List.cons_ne_nil _ _
    have hText : (Query.update q).text = "update at \"users/a\" set \"age\" = null" := by
      decide +kernel
    rw [← hText]
    exact Query.ofText_text hWell
  have hSelection : resultOf ((Select.every q.subject q.clauses).selection standardMaximum) store =
      .ok [⟨"users/a", [("age", .number (.real (Double.ofInt 7)))]⟩] := by
    have hFound : store.documents.get? "users/a" =
        some [("age", .number (.real (Double.ofInt 7)))] := by
      change Store.tied.documents.get? "users/a" = _
      rw [Documents.get?, Store.toList_tied]
      rfl
    have hFetch := @Plan.leads_fetch_document (.forDocument q.subject []) rfl standardMaximum
      store rfl
    change Leads _ _ (.ok ((store.documents.get? (Path.trim "users/a")).map
      (Document.mk (Path.trim "users/a"))).toList) _ at hFetch
    rw [Path.trim_eq_self hTrimmed, hFound] at hFetch
    have hPlan : (Select.every q.subject q.clauses).plan = .ok (.forDocument q.subject []) := rfl
    rw [Select.resultOf_selection hPlan, (Plan.leads_select rfl hFetch).resultOf_eq]
    simp [Except.map, Plan.forDocument, sortDocuments, filterDocuments]
  have hFailed : store.failedPaths [⟨"users/a", [("age", .number (.real (Double.ofInt 7)))]⟩] =
      ["users/a"] := by
    change List.filter (fun path => [Path.trim "users/a"].contains path) _ = _
    rw [Path.trim_eq_self hTrimmed]
    rfl
  have hAddressed : store.WellAddressed :=
    (Store.reachable_tied.step (.failWritesTo _ _)).wellAddressed
  have hWrites := (@writesTo_writeSelected {} ⟨store, .none⟩ _ _
    (Store.writesAs_update (patchOf q.setters)) hAddressed q.subject q.clauses).reports _ hSelection
  rw [hFailed] at hWrites
  rw [run, hQuery]
  exact hWrites

/-- The write to the only document of an update fails, and a plan with a
clause and a key for the store and one of each for later asks for the first
ones only. -/
theorem defences_find_nothing_refusedWrite :
    let world : World := ⟨Store.tied.failWritesTo "users/a", .none⟩
    let subject : Subject := ⟨"users", .collection⟩
    let clauses : List Clause :=
      [⟨"name", .like, .string "a%", true⟩, ⟨"age", .lessThan, .integer 7, false⟩]
    let order : List OrderKey := [⟨"name", .asc, true⟩, ⟨"age", .desc, false⟩]
    world.store.Reachable ∧
      resultOf (run {} "update at \"users/a\" set \"age\" = null") world =
        .ok (.written 0 ["users/a"]) ∧
      MeetsNoDefence {} "update at \"users/a\" set \"age\" = null" world ∧
      subject.kind ≠ .document ∧
      Plan.make subject clauses order none none = .ok (.forMany subject clauses order none none) ∧
      ∃ request, (Plan.forMany subject clauses order none none).request = .ok request ∧
        Plan.AsksForEach clauses order request := by
  intro world subject clauses order
  have hReachable : world.store.Reachable := Store.reachable_tied.step (.failWritesTo _ _)
  have hKind : subject.kind ≠ .document := by decide
  have hMake : Plan.make subject clauses order none none =
      .ok (.forMany subject clauses order none none) := by
    have hCollection : Path.isDocument "users" = false := by decide +kernel
    rw [Plan.make, if_neg (by simp [subject]), if_neg (by simp [subject, hCollection])]
    rfl
  obtain ⟨hMeets, hPlans⟩ := @defences_find_nothing {} "update at \"users/a\" set \"age\" = null"
    world hReachable
  exact ⟨hReachable, resultOf_run_refusedWrite, hMeets, hKind, hMake,
    hPlans subject clauses order none none _ hKind hMake⟩

end Engine

end DocQuery
