import DocQuery.Proofs.Execution.Failure
import DocQuery.Proofs.Selection.Ordering
import DocQuery.Proofs.Selection.Plans

/-! Where clauses in another order. Two runs of a statement go side by side: the
requests to the store ask for the same documents although they list their
filters in different orders, so from then on the two stores differ at most in
the requests that they remember. -/
namespace DocQuery

section Rules

variable {ε σ α β : Type} {R : σ → σ → Prop} {work other : ExceptT ε (StateM σ) α}
  {next follow : α → ExceptT ε (StateM σ) β}

/-- Two pieces of work that have the same result wherever they start from
related states, and end in related states. -/
def Agree (R : σ → σ → Prop) (work other : ExceptT ε (StateM σ) α) : Prop :=
  ∀ start second, R start second → resultOf work start = resultOf other second ∧
    R (finishOf work start) (finishOf other second)

theorem agree_pure (a : α) : Agree R (pure a : ExceptT ε (StateM σ) α) (pure a) :=
  fun _ _ h => ⟨rfl, h⟩

theorem agree_throw (e : ε) : Agree R (throw e : ExceptT ε (StateM σ) α) (throw e) :=
  fun _ _ h => ⟨rfl, h⟩

theorem agree_modify {change instead : σ → σ} (h : ∀ start second, R start second →
    R (change start) (instead second)) :
    Agree R (modify change : ExceptT ε (StateM σ) Unit) (modify instead) :=
  fun start second hStart => ⟨rfl, h start second hStart⟩

/-- Looking at the state, two runs see related states. -/
theorem agree_get_bind {next follow : σ → ExceptT ε (StateM σ) β}
    (h : ∀ start second, R start second → Agree R (next start) (follow second)) :
    Agree R (get >>= next) (get >>= follow) :=
  fun start second hStart => h start second hStart start second hStart

theorem Agree.bind (h : Agree R work other) (hNext : ∀ a, Agree R (next a) (follow a)) :
    Agree R (work >>= next) (other >>= follow) := by
  intro start second hStart
  obtain ⟨hResult, hMiddle⟩ := h start second hStart
  cases hWork : resultOf work start with
  | error e =>
      obtain ⟨hFirst, hFinish⟩ := resultOf_bind_of_error next hWork
      obtain ⟨hSecond, hOther⟩ := resultOf_bind_of_error follow (hResult.symm.trans hWork)
      rw [hFirst, hSecond, hFinish, hOther]
      exact ⟨rfl, hMiddle⟩
  | ok a =>
      obtain ⟨hFirst, hFinish⟩ := resultOf_bind_of_ok next hWork
      obtain ⟨hSecond, hOther⟩ := resultOf_bind_of_ok follow (hResult.symm.trans hWork)
      rw [hFirst, hSecond, hFinish, hOther]
      exact hNext a _ _ hMiddle

/-- Work that fails before anything is done, from every state for the same
reason. -/
def Refuses (work : ExceptT ε (StateM σ) α) : Prop :=
  ∃ e, ∀ start, Leads work start (.error e) start

theorem Refuses.bind (h : Refuses work) (next : α → ExceptT ε (StateM σ) β) :
    Refuses (work >>= next) := by
  obtain ⟨e, hLeads⟩ := h
  exact ⟨e, fun start => (hLeads start).bind_error⟩

/-- Two pieces of work agree, or both fail before anything is done, for whatever
reasons. -/
inductive Alike (R : σ → σ → Prop) (work other : ExceptT ε (StateM σ) α) : Prop
  | agree (h : Agree R work other)
  | refuse (h : Refuses work) (hOther : Refuses other)

theorem Alike.bind (h : Alike R work other) (hNext : ∀ a, Agree R (next a) (follow a)) :
    Alike R (work >>= next) (other >>= follow) := by
  cases h with
  | agree hAgree => exact .agree (hAgree.bind hNext)
  | refuse hFirst hSecond => exact .refuse (hFirst.bind next) (hSecond.bind follow)

end Rules

/-- A store is another one but for the requests that it remembers. -/
def Store.SameButHistory (store other : Store) : Prop :=
  ∃ history, other = { store with history }

/-- Two worlds with the same sink and with stores that differ in their history
at most. -/
def World.SameButHistory (world other : World) : Prop :=
  world.store.SameButHistory other.store ∧ other.sink = world.sink

section Calls

variable {α : Type}

theorem Agree.call {call other : StoreM α} (h : Agree Store.SameButHistory call other) :
    Agree Store.SameButHistory (Access.call call) (Access.call other) := by
  intro store second hStore
  obtain ⟨hResult, hFinish⟩ := h store second hStore
  have hFirst := (leads_of call store).call
  have hSecond := (leads_of other second).call
  rw [hFirst.resultOf_eq, hSecond.resultOf_eq, hFirst.finishOf_eq, hSecond.finishOf_eq, hResult]
  exact ⟨rfl, hFinish⟩

theorem Agree.onStore {access other : Access α} (h : Agree Store.SameButHistory access other) :
    Agree World.SameButHistory (Run.onStore access) (Run.onStore other) := by
  intro world second hWorld
  obtain ⟨hResult, hFinish⟩ := h world.store second.store hWorld.1
  have hFirst := (leads_of access world.store).onStore
  have hSecond := (leads_of other second.store).onStore
  rw [hFirst.resultOf_eq, hSecond.resultOf_eq, hFirst.finishOf_eq, hSecond.finishOf_eq]
  exact ⟨hResult, hFinish, hWorld.2⟩

theorem Refuses.onStore {access : Access α} (h : Refuses access) :
    Refuses (Run.onStore access) := by
  obtain ⟨fault, hLeads⟩ := h
  exact ⟨fault, fun world => (hLeads world.store).onStore⟩

theorem Alike.onStore {access other : Access α} (h : Alike Store.SameButHistory access other) :
    Alike World.SameButHistory (Run.onStore access) (Run.onStore other) := by
  cases h with
  | agree hAgree => exact .agree hAgree.onStore
  | refuse hFirst hSecond => exact .refuse hFirst.onStore hSecond.onStore

theorem agree_requireAtMost (maximum fetched : Nat) : Agree Store.SameButHistory
    (Access.requireAtMost maximum fetched) (Access.requireAtMost maximum fetched) := by
  rw [Access.requireAtMost]
  split
  · exact agree_throw _
  · exact agree_pure _

theorem refuses_planned {made : Except PlanError α} {fault : PlanError} (h : made = .error fault) :
    Refuses (Access.planned made) :=
  ⟨_, leads_planned_of_error h⟩

namespace Store

theorem agree_count (call : Calls → Calls) :
    Agree SameButHistory (Store.count call) (Store.count call) := by
  apply agree_modify
  rintro store _ ⟨history, rfl⟩
  exact ⟨history, rfl⟩

theorem agree_requireOnline : Agree SameButHistory requireOnline requireOnline := by
  apply agree_get_bind
  rintro store _ ⟨history, rfl⟩
  dsimp only
  cases store.offline with
  | true => exact agree_throw _
  | false => exact agree_pure ()

theorem agree_requireWritable (path : String) :
    Agree SameButHistory (requireWritable path) (requireWritable path) := by
  apply agree_requireOnline.bind
  intro _
  apply agree_get_bind
  rintro store _ ⟨history, rfl⟩
  dsimp only
  cases store.failing.contains path with
  | true => exact agree_throw _
  | false => exact agree_pure ()

theorem agree_getDocument (path : String) :
    Agree SameButHistory (getDocument path) (getDocument path) := by
  apply (agree_count _).bind
  intro _
  apply agree_requireOnline.bind
  intro _
  apply agree_get_bind
  rintro store _ ⟨history, rfl⟩
  exact agree_pure _

theorem agree_update (path : String) (patch : Fields) :
    Agree SameButHistory (Store.update path patch) (Store.update path patch) := by
  apply (agree_count _).bind
  intro _
  apply (agree_requireWritable _).bind
  intro _
  apply agree_get_bind
  rintro store _ ⟨history, rfl⟩
  dsimp only
  cases store.documents.get? (Path.trim path) with
  | none => exact agree_throw _
  | some fields =>
      apply agree_modify
      rintro store _ ⟨history, rfl⟩
      exact ⟨history, rfl⟩

theorem agree_delete (path : String) :
    Agree SameButHistory (Store.delete path) (Store.delete path) := by
  apply (agree_count _).bind
  intro _
  apply (agree_requireWritable _).bind
  intro _
  apply agree_modify
  rintro store _ ⟨history, rfl⟩
  exact ⟨history, rfl⟩

end Store

end Calls

section Requests

variable {request other : FetchRequest}

namespace FetchRequest

/-- Two requests for the same documents. -/
structure AsksAlike (request other : FetchRequest) : Prop where
  selects : request.selects = other.selects
  orders : request.orders = other.orders
  limit : request.limit = other.limit
  startAfter : request.startAfter = other.startAfter

/-- Requests that ask alike are answered alike. -/
theorem AsksAlike.answer_eq (h : request.AsksAlike other) (documents : List Document) :
    request.answer documents = other.answer documents := by
  have hRanked : request.ranked documents = other.ranked documents := by
    rw [ranked, ranked, h.selects, h.orders]
  have hFound : request.resume (request.ranked documents) =
      other.resume (other.ranked documents) := by
    rw [resume, resume, hRanked, h.startAfter, h.orders]
  rw [answer, answer, h.limit, hFound]

theorem AsksAlike.from (h : request.AsksAlike other) (limit : Option Nat)
    (start : Option Document) :
    AsksAlike { request with limit := limit, startAfter := start }
      { other with limit := limit, startAfter := start } :=
  ⟨h.selects, h.orders, rfl, rfl⟩

theorem AsksAlike.within (h : request.AsksAlike other) (limit : Option Nat) :
    AsksAlike { request with limit := limit } { other with limit := limit } :=
  ⟨h.selects, h.orders, rfl, h.startAfter⟩

end FetchRequest

theorem Store.agree_fetch (h : request.AsksAlike other) :
    Agree SameButHistory (Store.fetch request) (Store.fetch other) := by
  apply (agree_count _).bind
  intro _
  apply agree_requireOnline.bind
  intro _
  apply agree_get_bind
  rintro store _ ⟨history, rfl⟩
  rw [h.answer_eq]
  apply Agree.bind
  · apply agree_modify
    rintro store _ ⟨history, rfl⟩
    exact ⟨_, rfl⟩
  · exact fun _ => agree_pure _

namespace Plan

/-- Fetching everything depends on the filters and not on their order. -/
theorem agree_fetchAll (h : request.AsksAlike other) (maximum : Nat) :
    Agree Store.SameButHistory (fetchAll request maximum) (fetchAll other maximum) := by
  apply (Store.agree_fetch h).call.bind
  intro found
  apply (agree_requireAtMost maximum found.length).bind
  intro _
  exact agree_pure found

/-- Batches go on behind the same document, since the ones before were the
same. -/
theorem agree_fetchBatches (h : request.AsksAlike other) (size maximum attempts : Nat)
    (found : List Document) :
    Agree Store.SameButHistory (fetchBatches request size maximum attempts found)
      (fetchBatches other size maximum attempts found) := by
  induction attempts generalizing found with
  | zero => exact agree_pure found
  | succ attempts ih =>
      apply (Store.agree_fetch (h.from (some size) found.getLast?)).call.bind
      intro batch
      apply (agree_requireAtMost maximum (found ++ batch).length).bind
      intro _
      by_cases hShort : batch.length < size
      · rw [if_pos hShort, if_pos hShort]
        exact agree_pure _
      · rw [if_neg hShort, if_neg hShort]
        exact ih (found ++ batch)

/-- Two plans that differ in the order of their clauses. -/
structure Reordered (plan other : Plan) : Prop where
  subject : other.subject = plan.subject
  remoteClauses : plan.remoteClauses.Perm other.remoteClauses
  localClauses : plan.localClauses.Perm other.localClauses
  remoteOrder : other.remoteOrder = plan.remoteOrder
  localOrder : other.localOrder = plan.localOrder
  strategy : other.strategy = plan.strategy

variable {plan second : Plan}

/-- All filters have to be passed, in whichever order they are tried. -/
theorem Reordered.asksAlike (h : plan.Reordered second) (hRequest : plan.request = .ok request)
    (hOther : second.request = .ok other) : request.AsksAlike other := by
  obtain ⟨hScope, hFilters, hOrders, hLimit, hStart⟩ := request_eq_ok hRequest
  obtain ⟨hScope', hFilters', hOrders', hLimit', hStart'⟩ := request_eq_ok hOther
  have hSame : request.scope = other.scope := by
    rw [h.subject] at hScope'
    exact Except.ok.inj (hScope.symm.trans hScope')
  have hFields : request.orders = other.orders := by rw [hOrders, hOrders', h.remoteOrder]
  constructor
  · funext document
    have hAll : (request.filters.all fun filter => filter.holds document.fields) =
        other.filters.all fun filter => filter.holds document.fields := by
      rw [Bool.eq_iff_iff, all_filters_iff hFilters, all_filters_iff hFilters']
      constructor
      · intro hEach clause hClause
        exact hEach clause (h.remoteClauses.mem_iff.mpr hClause)
      · intro hEach clause hClause
        exact hEach clause (h.remoteClauses.mem_iff.mp hClause)
    rw [FetchRequest.selects, FetchRequest.selects, hSame, hAll, hFields]
  · exact hFields
  · rw [hLimit, hLimit']
  · rw [hStart, hStart']

/-- Plans whose clauses are rearranged fetch the same documents. -/
theorem Reordered.agree_fetch (h : plan.Reordered second) (hReady : plan.Ready)
    (hOther : second.Ready) (maximum : Nat) :
    Agree Store.SameButHistory (plan.fetch maximum) (second.fetch maximum) := by
  have hDocument : Agree Store.SameButHistory
      (do return (← Access.call (Store.getDocument plan.subject.path)).toList)
      (do return (← Access.call (Store.getDocument plan.subject.path)).toList) :=
    (Store.agree_getDocument plan.subject.path).call.bind fun _ => agree_pure _
  rw [fetch, fetch, h.strategy, h.subject]
  rcases hReady with hStrategy | ⟨request, hRequest⟩
  · rw [hStrategy]
    exact hDocument
  rcases hOther with hStrategy | ⟨other, hOther⟩
  · rw [← h.strategy, hStrategy]
    exact hDocument
  have hAlike := h.asksAlike hRequest hOther
  simp only [hRequest, hOther, planned_ok_bind]
  cases plan.strategy with
  | document => exact hDocument
  | limited limit => exact agree_fetchAll (hAlike.within (some limit)) maximum
  | unbounded => exact agree_fetchAll hAlike maximum
  | paged size =>
      apply agree_get_bind
      rintro store _ ⟨history, rfl⟩
      exact agree_fetchBatches hAlike size maximum (store.documents.size + 1) []

end Plan

end Requests

section Selections

variable {clauses others : List Clause}

/-- Clauses are accepted exactly if each of them is. -/
theorem checkClauses_eq_ok_iff :
    checkClauses clauses = .ok () ↔ ∀ clause ∈ clauses, clause.check = .ok () := by
  induction clauses with
  | nil => exact ⟨fun _ _ => nofun, fun _ => rfl⟩
  | cons clause rest ih =>
      have hCons : checkClauses (clause :: rest) = (clause.check >>= fun _ => checkClauses rest) :=
        List.forM_cons
      rw [List.forall_mem_cons, ← ih, hCons]
      cases clause.check with
      | error fault => exact ⟨nofun, fun h => nomatch h.1⟩
      | ok _ => exact ⟨fun h => ⟨rfl, h⟩, And.right⟩

/-- The order of clauses makes no difference to which documents they keep. -/
theorem filterDocuments_perm (h : clauses.Perm others) (documents : List Document) :
    filterDocuments clauses documents = filterDocuments others documents := by
  apply List.filter_congr
  intro document _
  exact h.all_eq

namespace Plan

variable {subject : Subject} {order : List OrderKey} {limit page : Option Nat} {plan second : Plan}

/-- Clauses are planned one by one. -/
theorem exists_reordered (h : clauses.Perm others)
    (hMake : make subject clauses order limit page = .ok plan) :
    ∃ second, make subject others order limit page = .ok second ∧ plan.Reordered second := by
  by_cases hKind : subject.kind = .document
  · rw [make, if_pos hKind] at hMake ⊢
    obtain rfl := Except.ok.inj hMake
    exact ⟨_, rfl, rfl, .nil, h, rfl, rfl, rfl⟩
  · obtain ⟨rfl, hSupported⟩ := eq_forMany_of_make hKind hMake
    have hRemote := h.filter fun clause => !clause.isLocal
    have hOther : unsupported? (others.filter fun clause => !clause.isLocal) = none := by
      apply List.find?_eq_none.mpr
      intro clause hClause
      exact List.find?_eq_none.mp hSupported clause (hRemote.mem_iff.mpr hClause)
    rw [make, if_neg hKind] at hMake ⊢
    by_cases hPath : subject.kind = .collection ∧ Path.isDocument subject.path
    · rw [if_pos hPath] at hMake
      cases hMake
    · rw [if_neg hPath]
      dsimp only [forMany]
      rw [hOther]
      exact ⟨_, rfl, rfl, hRemote, h.filter Clause.isLocal, rfl, rfl, rfl⟩

/-- What is fetched is filtered by the same local clauses and sorted in the same
way. -/
theorem Reordered.alike_select (h : plan.Reordered second) (hReady : plan.Ready)
    (hOther : second.Ready) (maximum : Nat) :
    Alike Store.SameButHistory (plan.select maximum) (second.select maximum) := by
  have hChecks :
      checkClauses plan.localClauses = .ok () ↔ checkClauses second.localClauses = .ok () := by
    rw [checkClauses_eq_ok_iff, checkClauses_eq_ok_iff]
    constructor
    · intro hEach clause hClause
      exact hEach clause (h.localClauses.mem_iff.mpr hClause)
    · intro hEach clause hClause
      exact hEach clause (h.localClauses.mem_iff.mp hClause)
  cases hCheck : checkClauses plan.localClauses with
  | ok _ =>
      apply Alike.agree
      rw [select, select, hCheck, hChecks.mp hCheck, planned_ok_bind, planned_ok_bind, h.localOrder]
      apply (h.agree_fetch hReady hOther maximum).bind
      intro found
      rw [filterDocuments_perm h.localClauses found]
      exact agree_pure _
  | error fault =>
      cases hSecond : checkClauses second.localClauses with
      | ok _ => cases hCheck.symm.trans (hChecks.mpr hSecond)
      | error other =>
          apply Alike.refuse
          · exact (refuses_planned hCheck).bind _
          · exact (refuses_planned hSecond).bind _

/-- Rearranged clauses select the same documents, or both are refused before the
store. -/
theorem alike_selecting (h : clauses.Perm others) (maximum : Nat) :
    Alike Store.SameButHistory (selecting (make subject clauses order limit page) maximum)
      (selecting (make subject others order limit page) maximum) := by
  cases hMake : make subject clauses order limit page with
  | ok plan =>
      obtain ⟨second, hSecond, hReordered⟩ := exists_reordered h hMake
      rw [hSecond, selecting, selecting, planned_ok_bind, planned_ok_bind]
      exact hReordered.alike_select (ready_of_make hMake) (ready_of_make hSecond) maximum
  | error fault =>
      cases hOther : make subject others order limit page with
      | ok second =>
          obtain ⟨plan, hPlan, _⟩ := exists_reordered h.symm hOther
          cases hMake.symm.trans hPlan
      | error other =>
          apply Alike.refuse
          · exact (refuses_planned rfl).bind _
          · exact (refuses_planned rfl).bind _

end Plan

end Selections

/-- Two statements that differ in the order of their where clauses. -/
inductive Query.Reordered : Query → Query → Prop
  | select {q : Select} {clauses : List Clause} (h : q.clauses.Perm clauses) :
      Reordered (.select q) (.select { q with clauses })
  | update {q : Update} {clauses : List Clause} (h : q.clauses.Perm clauses) :
      Reordered (.update q) (.update { q with clauses })
  | delete {q : Delete} {clauses : List Clause} (h : q.clauses.Perm clauses) :
      Reordered (.delete q) (.delete { q with clauses })

/-- Writing one document after the other has the same outcome on stores that
differ only in their history. -/
theorem Store.run_writeEach_sameButHistory {write : String → StoreM Unit}
    (h : ∀ path, Agree SameButHistory (write path) (write path)) (documents : List Document)
    {store second : Store} (hStore : store.SameButHistory second) :
    ((writeEach write documents).run store).1 = ((writeEach write documents).run second).1 ∧
      SameButHistory ((writeEach write documents).run store).2
        ((writeEach write documents).run second).2 := by
  induction documents generalizing store second with
  | nil => exact ⟨rfl, hStore⟩
  | cons document rest ih =>
      obtain ⟨hResult, hMiddle⟩ := h document.path store second hStore
      have hFirst := leads_of (write document.path) store
      have hSecond := leads_of (write document.path) second
      obtain ⟨hRest, hFinish⟩ := ih hMiddle
      rw [hResult] at hFirst
      generalize resultOf (write document.path) second = result at hFirst hSecond
      rcases hRun : (writeEach write rest).run (finishOf (write document.path) store) with
        ⟨⟨count, failed⟩, finish⟩
      rcases hOther : (writeEach write rest).run (finishOf (write document.path) second) with
        ⟨counts, last⟩
      rw [hRun, hOther] at hRest hFinish
      obtain rfl : (count, failed) = counts := hRest
      rw [run_writeEach_cons hFirst hRun, run_writeEach_cons hSecond hOther]
      cases result with
      | ok _ => exact ⟨rfl, hFinish⟩
      | error _ => exact ⟨rfl, hFinish⟩

namespace Engine

theorem agree_output (engine : Engine) (clause : Option OutputClause) (count : Nat)
    (result : ResultSet) : Agree World.SameButHistory (engine.output clause count result)
      (engine.output clause count result) := by
  rcases engine.output_cases clause count result with ⟨outcome, _, hPure⟩ | ⟨place, text, hSaved⟩
  · rw [hPure]
    exact agree_pure outcome
  · rw [hSaved]
    apply Agree.bind
    · rintro ⟨store, sink⟩ ⟨_, _⟩ ⟨hStore, rfl⟩
      exact ⟨rfl, hStore, rfl⟩
    · exact fun _ => agree_pure _

/-- Writing to what alike selections find is alike. -/
theorem alike_writeSelected (engine : Engine) {made second : Except PlanError Plan}
    (h : Alike Store.SameButHistory (Plan.selecting made engine.maximum)
      (Plan.selecting second engine.maximum)) {write : String → StoreM Unit}
    (hWrite : ∀ path, Agree Store.SameButHistory (write path) (write path)) :
    Alike World.SameButHistory (engine.writeSelected made write)
      (engine.writeSelected second write) := by
  have hEach (documents : List Document) : Agree Store.SameButHistory
      (liftM (Store.writeEach write documents) : Access (Nat × List String))
      (liftM (Store.writeEach write documents)) := by
    intro store other hStore
    obtain ⟨hResult, hFinish⟩ := Store.run_writeEach_sameButHistory hWrite documents hStore
    exact ⟨congrArg Except.ok hResult, hFinish⟩
  rw [writeSelected_eq, writeSelected_eq]
  apply Alike.onStore
  apply h.bind
  intro documents
  apply (hEach documents).bind
  rintro ⟨count, failed⟩
  exact agree_pure (Outcome.written count failed)

theorem alike_execute (engine : Engine) {query other : Query} (h : query.Reordered other) :
    Alike World.SameButHistory (engine.execute query) (engine.execute other) := by
  cases h with
  | select hPerm =>
      apply (Plan.alike_selecting hPerm engine.maximum).onStore.bind
      intro documents
      exact engine.agree_output _ _ _
  | update hPerm =>
      apply engine.alike_writeSelected (Plan.alike_selecting hPerm engine.maximum)
      intro path
      exact Store.agree_update path _
  | delete hPerm =>
      apply engine.alike_writeSelected (Plan.alike_selecting hPerm engine.maximum)
      exact Store.agree_delete

end Engine

/-- Two statements come to the same from one world. -/
inductive Engine.SameEnd (world : World) (work other : Run Outcome) : Prop
  | succeed {outcome : Outcome} (hWork : resultOf work world = .ok outcome)
      (hOther : resultOf other world = .ok outcome)
      (hDocuments : (finishOf work world).store.documents = (finishOf other world).store.documents)
      (hSink : (finishOf work world).sink = (finishOf other world).sink)
  | fail {fault reason : QueryError} (hWork : resultOf work world = .error fault)
      (hOther : resultOf other world = .error reason)
      (hKept : (finishOf work world).store.documents = world.store.documents)
      (hOtherKept : (finishOf other world).store.documents = world.store.documents)

/-- The order of the where clauses does not matter: both statements succeed with
the same outcome and leave the same documents behind, or both fail and leave the
documents as they were. -/
theorem Engine.clause_order_changes_nothing (engine : Engine) {query other : Query}
    (h : query.Reordered other) (world : World) :
    SameEnd world (engine.execute query) (engine.execute other) := by
  have hUnrecorded : Store.Unrecorded fun store => store.documents = world.store.documents :=
    fun _ _ _ h => h
  have hKept (query : Query) {fault : QueryError}
      (hFault : resultOf (engine.execute query) world = .error fault) :
      (finishOf (engine.execute query) world).store.documents = world.store.documents :=
    engine.keepsFailing_execute hUnrecorded query world rfl fault hFault
  cases engine.alike_execute h with
  | refuse hFirst hSecond =>
      obtain ⟨fault, hLeads⟩ := hFirst
      obtain ⟨reason, hOther⟩ := hSecond
      have hFault := (hLeads world).resultOf_eq
      have hReason := (hOther world).resultOf_eq
      exact .fail hFault hReason (hKept query hFault) (hKept other hReason)
  | agree hAgree =>
      have hSame : world.SameButHistory world := ⟨⟨world.store.history, rfl⟩, rfl⟩
      obtain ⟨hResult, hFinish⟩ := hAgree world world hSame
      cases hWork : resultOf (engine.execute query) world with
      | error fault =>
          have hOther := hResult.symm.trans hWork
          exact .fail hWork hOther (hKept query hWork) (hKept other hOther)
      | ok outcome =>
          obtain ⟨⟨history, hStore⟩, hSink⟩ := hFinish
          apply SameEnd.succeed hWork (hResult.symm.trans hWork)
          · rw [hStore]
          · exact hSink.symm

/-- Deletes of one document with two conditions that it meets, and deletes with
two patterns that are none: whichever is checked first is the one that is
reported. -/
theorem Engine.clause_order_changes_nothing_swapped :
    let least : Clause := ⟨"age", .greaterThanOrEqual, .integer 7, false⟩
    let most : Clause := ⟨"age", .lessThanOrEqual, .integer 7, true⟩
    let noText : Clause := ⟨"age", .like, .null, true⟩
    let noName : Clause := ⟨"name", .like, .bool true, true⟩
    let tied : World := ⟨Store.tied, .none⟩
    (SameEnd tied (execute {} (.delete ⟨⟨"users/b", .document⟩, [least, most]⟩))
        (execute {} (.delete ⟨⟨"users/b", .document⟩, [most, least]⟩)) ∧
      (finishOf (execute {} (.delete ⟨⟨"users/b", .document⟩, [least, most]⟩))
        tied).store.documents.size = 1) ∧
    SameEnd tied (execute {} (.delete ⟨⟨"users", .collection⟩, [noText, noName]⟩))
        (execute {} (.delete ⟨⟨"users", .collection⟩, [noName, noText]⟩)) ∧
      resultOf (execute {} (.delete ⟨⟨"users", .collection⟩, [noText, noName]⟩)) tied =
        .error (.unplannable (.invalidPattern "age" (.notText .null))) ∧
      resultOf (execute {} (.delete ⟨⟨"users", .collection⟩, [noName, noText]⟩)) tied =
        .error (.unplannable (.invalidPattern "name" (.notText (.bool true)))) := by
  refine ⟨⟨?_, by decide +kernel⟩, ?_, rfl, rfl⟩
  · exact clause_order_changes_nothing {} (.delete (.swap _ _ [])) _
  · exact clause_order_changes_nothing {} (.delete (.swap _ _ [])) _

end DocQuery
