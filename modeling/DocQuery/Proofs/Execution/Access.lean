import DocQuery.Execution.Basic

/-! Following work on the store step by step. `Leads` says where work that
starts in one state ends and with which result; a bind is followed through its
parts, and each call to the store has one rule for each way it can end. -/
namespace DocQuery

section Rules

variable {ε σ α β : Type}

/-- Work from one state on ends with this result in that state. -/
def Leads (work : ExceptT ε (StateM σ) α) (start : σ) (result : Except ε α) (finish : σ) : Prop :=
  work.run.run start = (result, finish)

/-- The result of work from a state on. -/
def resultOf (work : ExceptT ε (StateM σ) α) (start : σ) : Except ε α :=
  (work.run.run start).1

/-- The state that work from a state on leaves behind. -/
def finishOf (work : ExceptT ε (StateM σ) α) (start : σ) : σ :=
  (work.run.run start).2

variable {work : ExceptT ε (StateM σ) α} {start middle finish : σ}

theorem leads_of (work : ExceptT ε (StateM σ) α) (start : σ) :
    Leads work start (resultOf work start) (finishOf work start) :=
  rfl

theorem Leads.resultOf_eq {result : Except ε α} (h : Leads work start result finish) :
    resultOf work start = result :=
  congrArg Prod.fst h

theorem Leads.finishOf_eq {result : Except ε α} (h : Leads work start result finish) :
    finishOf work start = finish :=
  congrArg Prod.snd h

theorem leads_pure (a : α) (start : σ) :
    Leads (pure a : ExceptT ε (StateM σ) α) start (.ok a) start :=
  rfl

theorem leads_throw (e : ε) (start : σ) :
    Leads (throw e : ExceptT ε (StateM σ) α) start (.error e) start :=
  rfl

theorem leads_get (start : σ) :
    Leads (get : ExceptT ε (StateM σ) σ) start (.ok start) start :=
  rfl

theorem leads_modify (change : σ → σ) (start : σ) :
    Leads (modify change : ExceptT ε (StateM σ) Unit) start (.ok ()) (change start) :=
  rfl

/-- Work that goes on after a success. -/
theorem Leads.bind {next : α → ExceptT ε (StateM σ) β} {a : α} {result : Except ε β}
    (h : Leads work start (.ok a) middle) (hNext : Leads (next a) middle result finish) :
    Leads (work >>= next) start result finish := by
  unfold Leads at h
  rw [Leads, ExceptT.run_bind, StateT.run_bind, h]
  exact hNext

/-- Behind work that succeeds, the result is that of what follows. -/
theorem Leads.resultOf_bind {next : α → ExceptT ε (StateM σ) β} {a : α}
    (h : Leads work start (.ok a) middle) :
    resultOf (work >>= next) start = resultOf (next a) middle :=
  (h.bind (leads_of (next a) middle)).resultOf_eq

/-- Work that ends at a failure. -/
theorem Leads.bind_error {next : α → ExceptT ε (StateM σ) β} {e : ε}
    (h : Leads work start (.error e) finish) : Leads (work >>= next) start (.error e) finish := by
  unfold Leads at h
  rw [Leads, ExceptT.run_bind, StateT.run_bind, h]
  rfl

/-- Work that succeeds hands its finish to what follows. -/
theorem resultOf_bind_of_ok (next : α → ExceptT ε (StateM σ) β) {a : α}
    (h : resultOf work start = .ok a) :
    resultOf (work >>= next) start = resultOf (next a) (finishOf work start) ∧
      finishOf (work >>= next) start = finishOf (next a) (finishOf work start) := by
  have hWork := leads_of work start
  rw [h] at hWork
  have hBind := hWork.bind (leads_of (next a) _)
  exact ⟨hBind.resultOf_eq, hBind.finishOf_eq⟩

/-- Work that fails keeps what follows from running. -/
theorem resultOf_bind_of_error (next : α → ExceptT ε (StateM σ) β) {e : ε}
    (h : resultOf work start = .error e) :
    resultOf (work >>= next) start = .error e ∧
      finishOf (work >>= next) start = finishOf work start := by
  have hWork := leads_of work start
  rw [h] at hWork
  have hBind : Leads (work >>= next) start (.error e) _ := hWork.bind_error
  exact ⟨hBind.resultOf_eq, hBind.finishOf_eq⟩

/-- Work that succeeds has succeeded in each of its parts. -/
theorem exists_of_bind_eq_ok {next : α → ExceptT ε (StateM σ) β} {b : β}
    (h : resultOf (work >>= next) start = .ok b) :
    ∃ a, resultOf work start = .ok a ∧ resultOf (next a) (finishOf work start) = .ok b ∧
      finishOf (work >>= next) start = finishOf (next a) (finishOf work start) := by
  cases hWork : resultOf work start with
  | error e => cases (resultOf_bind_of_error next hWork).1.symm.trans h
  | ok a =>
      obtain ⟨hResult, hFinish⟩ := resultOf_bind_of_ok next hWork
      exact ⟨a, rfl, hResult.symm.trans h, hFinish⟩

end Rules

section Keeping

variable {ε σ α β : Type} {P : σ → Prop} {work : ExceptT ε (StateM σ) α}

/-- Work that starts where a property holds ends where it holds, also if it
fails. -/
def Keeps (P : σ → Prop) (work : ExceptT ε (StateM σ) α) : Prop :=
  ∀ start, P start → P (finishOf work start)

theorem keeps_pure (a : α) : Keeps P (pure a : ExceptT ε (StateM σ) α) :=
  fun _ h => h

theorem keeps_throw (e : ε) : Keeps P (throw e : ExceptT ε (StateM σ) α) :=
  fun _ h => h

/-- Nothing runs behind an error. -/
theorem keeps_throw_bind (e : ε) (next : α → ExceptT ε (StateM σ) β) :
    Keeps P ((throw e : ExceptT ε (StateM σ) α) >>= next) :=
  fun _ h => h

theorem keeps_get : Keeps P (get : ExceptT ε (StateM σ) σ) :=
  fun _ h => h

/-- What follows may depend on the state, of which the property is known. -/
theorem keeps_get_bind {next : σ → ExceptT ε (StateM σ) β}
    (h : ∀ state, P state → P (finishOf (next state) state)) :
    Keeps P ((get : ExceptT ε (StateM σ) σ) >>= next) :=
  h

theorem keeps_modify {change : σ → σ} (h : ∀ state, P state → P (change state)) :
    Keeps P (modify change : ExceptT ε (StateM σ) Unit) :=
  h

/-- What comes after has to be looked at for those results only that the work
can have. -/
theorem Keeps.bind {next : α → ExceptT ε (StateM σ) β} (h : Keeps P work)
    (hNext : ∀ start a, resultOf work start = .ok a → Keeps P (next a)) :
    Keeps P (work >>= next) := by
  intro start hStart
  have hLeads := leads_of work start
  have hMiddle := h start hStart
  cases hResult : resultOf work start with
  | error e =>
      rw [hResult] at hLeads
      rwa [hLeads.bind_error.finishOf_eq]
  | ok a =>
      rw [hResult] at hLeads
      rw [(hLeads.bind (leads_of (next a) _)).finishOf_eq]
      exact hNext start a hResult _ hMiddle

end Keeping

section Store

variable {α β : Type} {store finish : Store}

theorem Leads.call {call : StoreM α} {result : Except StoreError α}
    (h : Leads call store result finish) :
    Leads (Access.call call) store (result.mapError QueryError.store) finish := by
  unfold Leads at h
  rw [Leads, Access.call]
  rw [ExceptT.run_adapt, StateT.run_map, h]
  rfl

theorem Keeps.call {P : Store → Prop} {call : StoreM α} (h : Keeps P call) :
    Keeps P (Access.call call) := by
  intro start hStart
  rw [(leads_of call start).call.finishOf_eq]
  exact h start hStart

theorem keeps_planned {P : Store → Prop} (result : Except PlanError α) :
    Keeps P (Access.planned result) :=
  fun _ h => h

theorem keeps_requireAtMost {P : Store → Prop} (maximum fetched : Nat) :
    Keeps P (Access.requireAtMost maximum fetched) := by
  rw [Access.requireAtMost]
  split
  · exact keeps_throw _
  · exact keeps_pure ()

theorem leads_planned {result : Except PlanError α} {a : α} (h : result = .ok a) (store : Store) :
    Leads (Access.planned result) store (.ok a) store := by
  rw [h]
  rfl

/-- Where there is no plan nothing is asked of the store. -/
theorem leads_planned_of_error {result : Except PlanError α} {fault : PlanError}
    (h : result = .error fault) (store : Store) :
    Leads (Access.planned result) store (.error (.unplannable fault)) store := by
  rw [h]
  rfl

theorem leads_requireAtMost {maximum fetched : Nat} (h : fetched ≤ maximum) (store : Store) :
    Leads (Access.requireAtMost maximum fetched) store (.ok ()) store := by
  rw [Access.requireAtMost, if_neg (Nat.not_lt.mpr h)]
  exact leads_pure () store

/-- More documents than allowed are an error that says how many there were. -/
theorem leads_requireAtMost_of_lt {maximum fetched : Nat} (h : maximum < fetched) (store : Store) :
    Leads (Access.requireAtMost maximum fetched) store (.error (.tooMany fetched maximum))
      store := by
  rw [Access.requireAtMost, if_pos h]
  exact leads_throw _ store

theorem planned_ok_bind (a : α) (next : α → Access β) :
    (Access.planned (.ok a) >>= next) = next a :=
  rfl

/-- A call that succeeds has the result and the finish of the store. -/
theorem call_eq_ok {call : StoreM α} {a : α} (h : resultOf (Access.call call) store = .ok a) :
    resultOf call store = .ok a ∧ finishOf (Access.call call) store = finishOf call store := by
  have hCall := (leads_of call store).call
  rw [hCall.resultOf_eq] at h
  refine ⟨?_, hCall.finishOf_eq⟩
  cases hResult : resultOf call store with
  | error fault =>
      rw [hResult] at h
      cases h
  | ok found =>
      rw [hResult] at h
      exact congrArg Except.ok (Except.ok.inj h)

/-- Where work behind a plan succeeds there is a plan. -/
theorem planned_bind_eq_ok {result : Except PlanError α} {next : α → Access β} {b : β}
    (h : resultOf (Access.planned result >>= next) store = .ok b) :
    ∃ a, result = .ok a ∧ resultOf (next a) store = .ok b ∧
      finishOf (Access.planned result >>= next) store = finishOf (next a) store := by
  cases result with
  | error fault => cases h
  | ok a => exact ⟨a, rfl, h, rfl⟩

theorem finishOf_requireAtMost (maximum fetched : Nat) (store : Store) :
    finishOf (Access.requireAtMost maximum fetched) store = store := by
  rw [Access.requireAtMost]
  split
  · rfl
  · rfl

namespace Store

/-- The store after a call was counted. -/
def counted (store : Store) (call : Calls → Calls) : Store :=
  { store with calls := call store.calls }

/-- The store after a fetch was answered. -/
def fetched (store : Store) (request : FetchRequest) : Store :=
  { store.counted (fun calls => { calls with fetches := calls.fetches + 1 }) with
    history := store.history ++
      [⟨request, (request.answer store.documents.toList).length⟩] }

theorem leads_count (store : Store) (call : Calls → Calls) :
    Leads (Store.count call) store (.ok ()) (store.counted call) :=
  leads_modify _ store

theorem leads_requireOnline (store : Store) (h : store.offline = false) :
    Leads Store.requireOnline store (.ok ()) store := by
  refine (leads_get store).bind ?_
  rw [h]
  exact leads_pure () store

theorem leads_requireOnline_of_offline (store : Store) (h : store.offline = true) :
    Leads Store.requireOnline store (.error (.unavailable .offline)) store := by
  refine (leads_get store).bind ?_
  rw [h]
  exact leads_throw _ store

/-- A store that is online answers a request from its documents and records
it. -/
theorem leads_fetch (h : store.offline = false) (request : FetchRequest) :
    Leads (Store.fetch request) store (.ok (request.answer store.documents.toList))
      (store.fetched request) :=
  (leads_count store _).bind <| (leads_requireOnline (store.counted _) h).bind <|
    (leads_get _).bind <| (leads_modify _ _).bind <| leads_pure _ _

/-- A store that is offline counts the call and answers nothing. -/
theorem leads_fetch_of_offline (h : store.offline = true) (request : FetchRequest) :
    Leads (Store.fetch request) store (.error (.unavailable .offline))
      (store.counted fun calls => { calls with fetches := calls.fetches + 1 }) :=
  (leads_count store _).bind (leads_requireOnline_of_offline (store.counted _) h).bind_error

/-- A store that is online gives the document at the trimmed path, if there is
one. -/
theorem leads_getDocument (h : store.offline = false) (path : String) :
    Leads (Store.getDocument path) store
      (.ok ((store.documents.get? (Path.trim path)).map (Document.mk (Path.trim path))))
      (store.counted fun calls => { calls with gets := calls.gets + 1 }) :=
  (leads_count store _).bind <| (leads_requireOnline (store.counted _) h).bind <|
    (leads_get _).bind <| leads_pure _ _

theorem leads_getDocument_of_offline (h : store.offline = true) (path : String) :
    Leads (Store.getDocument path) store (.error (.unavailable .offline))
      (store.counted fun calls => { calls with gets := calls.gets + 1 }) :=
  (leads_count store _).bind (leads_requireOnline_of_offline (store.counted _) h).bind_error

end Store

end Store

section World

variable {α : Type} {access : Access α} {world : World} {result : Except QueryError α}

/-- Work on the store leaves the sink alone. -/
theorem Leads.onStore {finish : Store} (h : Leads access world.store result finish) :
    Leads (Run.onStore access) world result { world with store := finish } := by
  rw [Leads, StateT.run, ExceptT.run] at h
  simp only [Leads, Run.onStore, ExceptT.run, ExceptT.mk, StateT.run, h]

theorem onStore_eq_ok {a : α}
    (h : resultOf (Run.onStore access) world = .ok a) :
    resultOf access world.store = .ok a ∧
      (finishOf (Run.onStore access) world).store = finishOf access world.store := by
  have hRun := (leads_of access world.store).onStore
  rw [hRun.finishOf_eq]
  exact ⟨hRun.resultOf_eq.symm.trans h, rfl⟩

/-- What work on the store keeps holds of the store of the world. -/
theorem Keeps.onStore {P : Store → Prop} (h : Keeps P access) :
    Keeps (fun world => P world.store) (Run.onStore access) := by
  intro start hStart
  rw [(leads_of access start.store).onStore.finishOf_eq]
  exact h _ hStart

/-- What is delivered depends on the sink alone. -/
theorem leads_deliver (world : World) (destination : Destination) (text : String) :
    Leads (Run.deliver destination text) world
      ((world.sink.deliver destination text).2.mapError QueryError.output)
      { world with sink := (world.sink.deliver destination text).1 } :=
  rfl

end World

end DocQuery
