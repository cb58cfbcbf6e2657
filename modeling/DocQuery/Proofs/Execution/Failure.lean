import DocQuery.Proofs.Execution.Reachable

/-! What a statement that fails leaves behind. Everything is planned and checked
before the first call to the store, and nothing fails after the first write, so
a failure leaves the documents and the sink as they were; a statement that is
not understood or does not fit the store makes no call at all. -/
namespace DocQuery

/-- An error that is found in the statement itself or in its plan. -/
def QueryError.IsEarly : QueryError → Prop
  | .malformed _ => True
  | .unplannable _ => True
  | .store _ => False
  | .output _ => False
  | .tooMany _ _ => False

section Early

variable {σ α β : Type}

/-- Work that never fails early. -/
def NeverEarly (work : ExceptT QueryError (StateM σ) α) : Prop :=
  ∀ start fault, resultOf work start = .error fault → ¬ fault.IsEarly

/-- Work that has changed nothing where it fails early. -/
def ChecksFirst (work : ExceptT QueryError (StateM σ) α) : Prop :=
  ∀ start fault, resultOf work start = .error fault → fault.IsEarly → finishOf work start = start

variable {work : ExceptT QueryError (StateM σ) α}

theorem neverEarly_pure (a : α) : NeverEarly (pure a : ExceptT QueryError (StateM σ) α) := by
  intro start fault hFault
  rw [(leads_pure a start).resultOf_eq] at hFault
  cases hFault

theorem NeverEarly.bind {next : α → ExceptT QueryError (StateM σ) β} (h : NeverEarly work)
    (hNext : ∀ a, NeverEarly (next a)) : NeverEarly (work >>= next) := by
  intro start fault hFault
  cases hWork : resultOf work start with
  | ok a => exact hNext a _ fault ((resultOf_bind_of_ok _ hWork).1.symm.trans hFault)
  | error e =>
      obtain rfl := Except.error.inj ((resultOf_bind_of_error _ hWork).1.symm.trans hFault)
      exact h start e hWork

/-- Work without early errors has checked everything it checks. -/
theorem NeverEarly.checksFirst (h : NeverEarly work) : ChecksFirst work :=
  fun start fault hFault hEarly => absurd hEarly (h start fault hFault)

/-- Once all checks are passed, no other may come. -/
theorem ChecksFirst.bind {next : α → ExceptT QueryError (StateM σ) β} (h : ChecksFirst work)
    (hNext : ∀ a, NeverEarly (next a)) : ChecksFirst (work >>= next) := by
  intro start fault hFault hEarly
  cases hWork : resultOf work start with
  | ok a =>
      have hLater := (resultOf_bind_of_ok _ hWork).1.symm.trans hFault
      exact absurd hEarly (hNext a _ fault hLater)
  | error e =>
      obtain ⟨hResult, hFinish⟩ := resultOf_bind_of_error next hWork
      obtain rfl := Except.error.inj (hResult.symm.trans hFault)
      rw [hFinish]
      exact h start e hWork hEarly

/-- After work that changes nothing there may still be checks. -/
theorem ChecksFirst.bind_of_pure {next : α → ExceptT QueryError (StateM σ) β}
    (h : ∀ start, finishOf work start = start) (hNext : ∀ a, ChecksFirst (next a)) :
    ChecksFirst (work >>= next) := by
  intro start fault hFault hEarly
  cases hWork : resultOf work start with
  | ok a =>
      obtain ⟨hResult, hFinish⟩ := resultOf_bind_of_ok next hWork
      rw [h start] at hResult hFinish
      rw [hFinish]
      exact hNext a start fault (hResult.symm.trans hFault) hEarly
  | error e => rw [(resultOf_bind_of_error _ hWork).2, h start]

end Early

section Access

variable {α β : Type}

theorem finishOf_planned (result : Except PlanError α) (store : Store) :
    finishOf (Access.planned result) store = store :=
  rfl

/-- A plan is made before anything else is done. -/
theorem checksFirst_planned_bind (result : Except PlanError α) {next : α → Access β}
    (h : ∀ a, ChecksFirst (next a)) : ChecksFirst (Access.planned result >>= next) :=
  .bind_of_pure (finishOf_planned result) h

/-- Errors of the store are not early. -/
theorem neverEarly_call (call : StoreM α) : NeverEarly (Access.call call) := by
  intro store fault hFault
  rw [(leads_of call store).call.resultOf_eq] at hFault
  cases hResult : resultOf call store with
  | ok a =>
      rw [hResult] at hFault
      cases hFault
  | error e =>
      rw [hResult] at hFault
      obtain rfl := Except.error.inj hFault
      exact id

theorem neverEarly_requireAtMost (maximum fetched : Nat) :
    NeverEarly (Access.requireAtMost maximum fetched) := by
  intro store fault hFault
  by_cases hLess : maximum < fetched
  · rw [(leads_requireAtMost_of_lt hLess store).resultOf_eq] at hFault
    obtain rfl := Except.error.inj hFault
    exact id
  · rw [(leads_requireAtMost (Nat.le_of_not_lt hLess) store).resultOf_eq] at hFault
    cases hFault

namespace Plan

/-- Too many documents is an error that comes after the store was asked. -/
theorem neverEarly_fetchBatches (request : FetchRequest) (size maximum attempts : Nat)
    (found : List Document) : NeverEarly (fetchBatches request size maximum attempts found) := by
  induction attempts generalizing found with
  | zero => exact neverEarly_pure found
  | succ attempts ih =>
      refine (neverEarly_call _).bind fun batch => (neverEarly_requireAtMost _ _).bind fun _ => ?_
      split
      · exact neverEarly_pure _
      · exact ih _

theorem neverEarly_fetchAll (request : FetchRequest) (maximum : Nat) :
    NeverEarly (fetchAll request maximum) :=
  (neverEarly_call _).bind fun _ => (neverEarly_requireAtMost _ _).bind fun _ => neverEarly_pure _

/-- The request is made out before it is sent. -/
theorem checksFirst_fetch (plan : Plan) (maximum : Nat) : ChecksFirst (plan.fetch maximum) := by
  rw [fetch]
  cases plan.strategy with
  | document => exact ((neverEarly_call _).bind fun _ => neverEarly_pure _).checksFirst
  | limited limit =>
      exact checksFirst_planned_bind _ fun _ => (neverEarly_fetchAll _ maximum).checksFirst
  | unbounded =>
      exact checksFirst_planned_bind _ fun _ => (neverEarly_fetchAll _ maximum).checksFirst
  | paged size =>
      exact checksFirst_planned_bind _ fun _ => .bind_of_pure (fun _ => rfl) fun _ =>
        (neverEarly_fetchBatches _ _ _ _ _).checksFirst

/-- Patterns are checked before anything is fetched. -/
theorem checksFirst_select (plan : Plan) (maximum : Nat) : ChecksFirst (plan.select maximum) :=
  checksFirst_planned_bind _ fun _ =>
    (plan.checksFirst_fetch maximum).bind fun _ => neverEarly_pure _

end Plan

end Access

section World

variable {α : Type}

theorem ChecksFirst.onStore {access : Access α} (h : ChecksFirst access) :
    ChecksFirst (Run.onStore access) := by
  intro world fault hFault hEarly
  have hRun := (leads_of access world.store).onStore
  rw [hRun.finishOf_eq, h world.store fault (hRun.resultOf_eq.symm.trans hFault) hEarly]

theorem neverEarly_deliver (destination : Destination) (text : String) :
    NeverEarly (Run.deliver destination text) := by
  intro world fault hFault
  rw [(leads_deliver world destination text).resultOf_eq] at hFault
  cases hResult : (world.sink.deliver destination text).2 with
  | ok place =>
      rw [hResult] at hFault
      cases hFault
  | error e =>
      rw [hResult] at hFault
      obtain rfl := Except.error.inj hFault
      exact id

namespace Engine

/-- A result is either given back as it is or delivered once. -/
theorem output_cases (engine : Engine) (clause : Option OutputClause) (count : Nat)
    (result : ResultSet) :
    (∃ outcome, (∀ n place, outcome ≠ .saved n place) ∧
      engine.output clause count result = pure outcome) ∨
    ∃ destination text, engine.output clause count result =
      (do return Outcome.saved count (← Run.deliver destination text)) := by
  cases clause with
  | none => exact Or.inl ⟨_, by simp, rfl⟩
  | some clause =>
      obtain ⟨kind, format, destination⟩ := clause
      cases kind with
      | inline =>
          simp only [output]
          cases format.getD engine.format with
          | json => exact Or.inl ⟨_, by simp, rfl⟩
          | csv => exact Or.inl ⟨_, by simp, rfl⟩
      | clipboard => exact Or.inr ⟨_, _, rfl⟩
      | path => exact Or.inr ⟨_, _, rfl⟩

theorem neverEarly_output (engine : Engine) (clause : Option OutputClause) (count : Nat)
    (result : ResultSet) : NeverEarly (engine.output clause count result) := by
  rcases engine.output_cases clause count result with ⟨outcome, _, hPure⟩ | ⟨place, text, hSaved⟩
  · rw [hPure]
    exact neverEarly_pure outcome
  · rw [hSaved]
    exact (neverEarly_deliver place text).bind fun _ => neverEarly_pure _

theorem checksFirst_select (engine : Engine) (q : Select) : ChecksFirst (engine.select q) := by
  have hSelection : ChecksFirst (q.selection engine.maximum) :=
    checksFirst_planned_bind _ fun plan => plan.checksFirst_select _
  exact hSelection.onStore.bind fun _ => engine.neverEarly_output _ _ _

/-- A statement that writes is planned before it reads and reads before it
writes. -/
theorem checksFirst_writeSelected (engine : Engine) (plan : Except PlanError Plan)
    (write : String → StoreM Unit) : ChecksFirst (engine.writeSelected plan write) := by
  have hEach (documents : List Document) :
      NeverEarly (liftM (Store.writeEach write documents) : Access (Nat × List String)) :=
    fun _ _ => nofun
  refine ChecksFirst.onStore (checksFirst_planned_bind _ fun plan => ?_)
  exact (plan.checksFirst_select _).bind fun documents =>
    (hEach documents).bind fun _ => neverEarly_pure _

theorem checksFirst_insert (q : Insert) : ChecksFirst (insert q) :=
  ChecksFirst.onStore <| checksFirst_planned_bind _ fun _ =>
    ((neverEarly_call _).bind fun _ => neverEarly_pure _).checksFirst

theorem checksFirst_showCollections (engine : Engine) (q : Show) :
    ChecksFirst (engine.showCollections q) := by
  refine ChecksFirst.onStore (checksFirst_planned_bind _ fun target => ?_)
  cases target with
  | root => exact ((neverEarly_call _).bind fun _ => neverEarly_pure _).checksFirst
  | document path => exact ((neverEarly_call _).bind fun _ => neverEarly_pure _).checksFirst
  | below plan =>
      exact (plan.checksFirst_fetch _).bind fun _ =>
        (neverEarly_call _).bind fun _ => neverEarly_pure _

/-- Every statement is planned before the store is asked. -/
theorem checksFirst_execute (engine : Engine) (query : Query) :
    ChecksFirst (engine.execute query) := by
  cases query with
  | select q => exact engine.checksFirst_select q
  | update q => exact engine.checksFirst_writeSelected _ _
  | delete q => exact engine.checksFirst_writeSelected _ _
  | insert q => exact checksFirst_insert q
  | «show» q => exact engine.checksFirst_showCollections q

/-- A text is read and planned before the store is asked. -/
theorem checksFirst_run (engine : Engine) (text : String) : ChecksFirst (engine.run text) := by
  rw [run]
  cases Query.ofText text with
  | ok query => exact engine.checksFirst_execute query
  | error error => exact fun _ _ _ _ => rfl

end Engine

end World

section Failing

variable {σ α β : Type} {P : σ → Prop} {ε : Type} {work : ExceptT ε (StateM σ) α}

/-- Work that keeps a property where it fails. -/
def KeepsFailing (P : σ → Prop) (work : ExceptT ε (StateM σ) α) : Prop :=
  ∀ start, P start → ∀ fault, resultOf work start = .error fault → P (finishOf work start)

theorem Keeps.failing (h : Keeps P work) : KeepsFailing P work :=
  fun start hStart _ _ => h start hStart

/-- Work that cannot fail is free to change anything. -/
theorem keepsFailing_of_ok (h : ∀ start, ∃ a, resultOf work start = .ok a) :
    KeepsFailing P work := by
  intro start _ fault hFault
  obtain ⟨a, hOk⟩ := h start
  cases hOk.symm.trans hFault

/-- Where the first work keeps a property, only the second may lose it, and only
if it succeeds. -/
theorem Keeps.bind_failing {next : α → ExceptT ε (StateM σ) β} (h : Keeps P work)
    (hNext : ∀ a, KeepsFailing P (next a)) : KeepsFailing P (work >>= next) := by
  intro start hStart fault hFault
  have hMiddle := h start hStart
  cases hWork : resultOf work start with
  | ok a =>
      obtain ⟨hResult, hFinish⟩ := resultOf_bind_of_ok next hWork
      rw [hFinish]
      exact hNext a _ hMiddle fault (hResult.symm.trans hFault)
  | error e => rwa [(resultOf_bind_of_error _ hWork).2]

/-- Work that keeps a property where it fails may be followed by work that
cannot fail. -/
theorem KeepsFailing.bind {next : α → ExceptT ε (StateM σ) β} (h : KeepsFailing P work)
    (hNext : ∀ a start, ∃ b, resultOf (next a) start = .ok b) : KeepsFailing P (work >>= next) := by
  intro start hStart fault hFault
  cases hWork : resultOf work start with
  | ok a =>
      obtain ⟨b, hOk⟩ := hNext a (finishOf work start)
      cases ((resultOf_bind_of_ok _ hWork).1.trans hOk).symm.trans hFault
  | error e =>
      rw [(resultOf_bind_of_error _ hWork).2]
      exact h start hStart e hWork

end Failing

section Calls

variable {P : Store → Prop} {α : Type}

theorem KeepsFailing.call {call : StoreM α} (h : KeepsFailing P call) :
    KeepsFailing P (Access.call call) := by
  intro store hStore fault hFault
  have hCall := (leads_of call store).call
  rw [hCall.finishOf_eq]
  cases hResult : resultOf call store with
  | ok a =>
      rw [hCall.resultOf_eq, hResult] at hFault
      cases hFault
  | error e => exact h store hStore e hResult

theorem KeepsFailing.onStore {access : Access α} (h : KeepsFailing P access) :
    KeepsFailing (fun world => P world.store) (Run.onStore access) := by
  intro world hWorld fault hFault
  have hRun := (leads_of access world.store).onStore
  rw [hRun.finishOf_eq]
  exact h world.store hWorld fault (hRun.resultOf_eq.symm.trans hFault)

variable (h : Store.Unrecorded P)
include h

/-- A document is created in the last step, which cannot fail. -/
theorem Store.keepsFailing_create (collection : String) (id : Option String) (fields : Fields) :
    KeepsFailing P (Store.create collection id fields) := by
  rw [Store.create]
  refine (keeps_count h _).bind_failing fun _ => keeps_requireOnline.bind_failing fun _ => ?_
  dsimp only
  cases isCollection (Path.trim collection) with
  | false => exact (keeps_throw_bind _ _).failing
  | true =>
      refine (keeps_chooseId id).bind_failing fun name =>
        (keeps_requireWritable _).bind_failing fun _ => keeps_get.bind_failing fun store => ?_
      split
      · exact (keeps_throw_bind _ _).failing
      · exact keepsFailing_of_ok fun start => ⟨_, rfl⟩

namespace Engine

/-- Writing cannot fail as a whole, so a statement that fails has written
nothing. -/
theorem keepsFailing_writeSelected (engine : Engine) (plan : Except PlanError Plan)
    (write : String → StoreM Unit) :
    KeepsFailing (fun world => P world.store) (engine.writeSelected plan write) := by
  refine KeepsFailing.onStore ((keeps_planned plan).bind_failing fun plan =>
    (plan.keeps_select h _).bind_failing fun documents => ?_)
  exact keepsFailing_of_ok fun start => ⟨_, rfl⟩

theorem keepsFailing_insert (q : Insert) :
    KeepsFailing (fun world => P world.store) (insert q) :=
  KeepsFailing.onStore <| (keeps_planned _).bind_failing fun _ =>
    (Store.keepsFailing_create h _ _ _).call.bind fun _ _ => ⟨_, rfl⟩

/-- A statement that fails keeps what counting and recording keep. -/
theorem keepsFailing_execute (engine : Engine) (query : Query) :
    KeepsFailing (fun world => P world.store) (engine.execute query) := by
  cases query with
  | select q => exact (engine.keeps_select h q).failing
  | update q => exact engine.keepsFailing_writeSelected h _ _
  | delete q => exact engine.keepsFailing_writeSelected h _ _
  | insert q => exact keepsFailing_insert h q
  | «show» q => exact (engine.keeps_showCollections h q).failing

theorem keepsFailing_run (engine : Engine) (text : String) :
    KeepsFailing (fun world => P world.store) (engine.run text) := by
  rw [run]
  cases Query.ofText text with
  | ok query => exact engine.keepsFailing_execute h query
  | error error => exact fun _ hWorld _ _ => hWorld

end Engine

end Calls

/-- What a recording sink was given. -/
def Sink.writes : Sink → List (Destination × String)
  | .none => []
  | .recording writes => writes
  | .devices _ => []

/-- A result was saved and the sink was given one text, or none was saved and it
was given nothing. -/
inductive Delivered (before : Sink) (result : Except QueryError Outcome) (after : Sink) : Prop where
  | once {count : Nat} {place : String} {delivery : Destination × String}
      (hResult : result = .ok (.saved count place))
      (hSink : after.writes = before.writes ++ [delivery])
  | nothing (hResult : ∀ count place, result ≠ .ok (.saved count place)) (hSink : after = before)

section Unsaved

variable {σ α : Type}

/-- Work that saves nothing. -/
def Unsaved (work : ExceptT QueryError (StateM σ) Outcome) : Prop :=
  ∀ start count place, resultOf work start ≠ .ok (.saved count place)

theorem unsaved_pure {outcome : Outcome} (h : ∀ count place, outcome ≠ .saved count place) :
    Unsaved (pure outcome : ExceptT QueryError (StateM σ) Outcome) := by
  intro start count place hSaved
  rw [(leads_pure outcome start).resultOf_eq] at hSaved
  exact h count place (Except.ok.inj hSaved)

theorem unsaved_bind {work : ExceptT QueryError (StateM σ) α}
    {next : α → ExceptT QueryError (StateM σ) Outcome} (h : ∀ a, Unsaved (next a)) :
    Unsaved (work >>= next) := by
  intro start count place hSaved
  cases hWork : resultOf work start with
  | ok a => exact h a _ count place ((resultOf_bind_of_ok _ hWork).1.symm.trans hSaved)
  | error e => cases (resultOf_bind_of_error _ hWork).1.symm.trans hSaved

end Unsaved

/-- Work on the store gives the sink nothing. -/
theorem Unsaved.delivered {access : Access Outcome} (h : Unsaved access) (world : World) :
    Delivered world.sink (resultOf (Run.onStore access) world)
      (finishOf (Run.onStore access) world).sink := by
  have hRun := (leads_of access world.store).onStore
  rw [hRun.resultOf_eq, hRun.finishOf_eq]
  exact .nothing (h world.store) rfl

namespace Engine

variable {world : World} (hSink : ∀ devices, world.sink ≠ .devices devices)
include hSink

/-- A recording sink takes every text; without a sink none is delivered. -/
theorem delivered_output (engine : Engine) (clause : Option OutputClause) (count : Nat)
    (result : ResultSet) :
    Delivered world.sink (resultOf (engine.output clause count result) world)
      (finishOf (engine.output clause count result) world).sink := by
  rcases engine.output_cases clause count result with
    ⟨outcome, hOutcome, hPure⟩ | ⟨place, text, hSaved⟩
  · rw [hPure]
    exact .nothing (unsaved_pure hOutcome world) rfl
  · have hLeads := leads_saved world place text count
    rw [hSaved, hLeads.resultOf_eq, hLeads.finishOf_eq]
    cases hCase : world.sink with
    | none => exact .nothing nofun rfl
    | recording writes =>
        have hWrites : Sink.writes (.recording (writes ++ [(place, text)])) =
            Sink.writes (.recording writes) ++ [(place, text)] := rfl
        exact .once rfl hWrites
    | devices devices => exact absurd hCase (hSink devices)

/-- A select delivers once if it is saved, and not at all otherwise. -/
theorem delivered_select (engine : Engine) (q : Select) :
    Delivered world.sink (resultOf (engine.select q) world)
      (finishOf (engine.select q) world).sink := by
  have hSelection := leads_of (q.selection engine.maximum) world.store
  cases hResult : resultOf (q.selection engine.maximum) world.store with
  | error fault =>
      rw [hResult] at hSelection
      have hLeads := engine.leads_select_of_error hSelection
      rw [hLeads.resultOf_eq, hLeads.finishOf_eq]
      exact .nothing nofun rfl
  | ok documents =>
      rw [hResult] at hSelection
      have hLeads := engine.leads_select hSelection
      rw [hLeads.resultOf_eq, hLeads.finishOf_eq]
      let after : World := ⟨finishOf (q.selection engine.maximum) world.store, world.sink⟩
      have hAfter : ∀ devices, after.sink ≠ .devices devices := hSink
      exact engine.delivered_output hAfter _ _ _

/-- A text delivers once if it is saved, and not at all otherwise. -/
theorem delivered_run (engine : Engine) (text : String) :
    Delivered world.sink (resultOf (engine.run text) world)
      (finishOf (engine.run text) world).sink := by
  rw [run]
  cases Query.ofText text with
  | error error => exact .nothing nofun rfl
  | ok query =>
      cases query with
      | select q => exact engine.delivered_select hSink q
      | update q =>
          exact Unsaved.delivered (unsaved_bind fun _ => unsaved_bind fun _ => unsaved_bind fun _ =>
            unsaved_pure (by simp)) world
      | delete q =>
          exact Unsaved.delivered (unsaved_bind fun _ => unsaved_bind fun _ => unsaved_bind fun _ =>
            unsaved_pure (by simp)) world
      | insert q =>
          exact Unsaved.delivered (unsaved_bind fun _ => unsaved_bind fun _ =>
            unsaved_pure (by simp)) world
      | «show» q =>
          refine Unsaved.delivered (unsaved_bind fun target => ?_) world
          cases target with
          | root => exact unsaved_bind fun _ => unsaved_pure (by simp)
          | document path => exact unsaved_bind fun _ => unsaved_pure (by simp)
          | below plan => exact unsaved_bind fun _ => unsaved_bind fun _ => unsaved_pure (by simp)

end Engine

/-- A store is another one but for its record of calls. -/
def Store.SameButCalls (store finish : Store) : Prop :=
  ∃ calls history, finish = { store with calls, history }

theorem Store.unrecorded_sameButCalls (store : Store) : Unrecorded store.SameButCalls := by
  rintro _ calls history ⟨_, _, rfl⟩
  exact ⟨calls, history, rfl⟩

theorem Store.sameButCalls_refl (store : Store) : store.SameButCalls store :=
  ⟨store.calls, store.history, rfl⟩

/-- What a statement leaves as it was. -/
structure Engine.LeavesAlone (engine : Engine) (text : String) (world : World) : Prop where
  /-- If it fails, the store has answered calls at most, and the sink was given
  nothing. -/
  fails : ∀ fault, resultOf (engine.run text) world = .error fault →
    world.store.SameButCalls (finishOf (engine.run text) world).store ∧
      (finishOf (engine.run text) world).sink = world.sink
  /-- If it is malformed or cannot be planned, there was no call either. -/
  refuses : ∀ fault, resultOf (engine.run text) world = .error fault → fault.IsEarly →
    finishOf (engine.run text) world = world
  /-- If it reads only, the store has answered calls at most, also when it
  succeeds. -/
  reads : ((∃ q, Query.ofText text = .ok (.select q)) ∨ ∃ q, Query.ofText text = .ok (.show q)) →
    world.store.SameButCalls (finishOf (engine.run text) world).store
  /-- If a result was saved, and only then, the sink was given a text, and just
  one. -/
  delivers : (∃ count place, resultOf (engine.run text) world = .ok (.saved count place)) ↔
    ∃ delivery, (finishOf (engine.run text) world).sink.writes = world.sink.writes ++ [delivery]
  /-- If none was saved, the sink was given nothing. -/
  keeps : (∀ count place, resultOf (engine.run text) world ≠ .ok (.saved count place)) →
    (finishOf (engine.run text) world).sink = world.sink

/-- A statement that fails leaves everything as it was, whatever it fails for,
and one that only reads does so in any case. Of sinks that record texts, or of
none, nothing but a saved result is noticed. -/
theorem Engine.failure_leaves_everything (engine : Engine) (text : String) {world : World}
    (hSink : ∀ devices, world.sink ≠ .devices devices) : engine.LeavesAlone text world := by
  have hSame := Store.sameButCalls_refl world.store
  have hUnrecorded := Store.unrecorded_sameButCalls world.store
  have hDelivered := engine.delivered_run hSink text
  constructor
  · intro fault hFault
    refine ⟨engine.keepsFailing_run hUnrecorded text world hSame fault hFault, ?_⟩
    cases hDelivered with
    | once hResult _ => cases hResult.symm.trans hFault
    | nothing _ hSink => exact hSink
  · exact engine.checksFirst_run text world
  · intro hReads
    rw [run]
    rcases hReads with ⟨q, hQuery⟩ | ⟨q, hQuery⟩
    · rw [hQuery]
      exact engine.keeps_select hUnrecorded q world hSame
    · rw [hQuery]
      exact engine.keeps_showCollections hUnrecorded q world hSame
  · cases hDelivered with
    | once hResult hOnce => exact ⟨fun _ => ⟨_, hOnce⟩, fun _ => ⟨_, _, hResult⟩⟩
    | nothing hResult hNothing =>
        refine ⟨fun ⟨count, place, hSaved⟩ => absurd hSaved (hResult count place), ?_⟩
        rintro ⟨delivery, hOnce⟩
        rw [hNothing, List.self_eq_append_right] at hOnce
        cases hOnce
  · intro hUnsaved
    cases hDelivered with
    | once hResult _ => exact absurd hResult (hUnsaved _ _)
    | nothing _ hSink => exact hSink

/-- A whole collection or a document, copied to the clipboard. -/
def Select.toClipboard (subject : Subject) : Select :=
  { subject, clauses := [], projection := .all, limit := none, page := none, order := []
    group := none, aggregate := none, output := some ⟨.clipboard, none, none⟩ }

/-- A fetch that is not answered is counted, a document path after `from` is
refused before any call, and a missing document is delivered as no documents. -/
theorem Engine.failure_leaves_everything_offline :
    (resultOf (Engine.run {} "select * from users output clipboard")
        ⟨Store.tied.setOffline true, .recording []⟩ = .error (.store (.unavailable .offline)) ∧
      (Store.tied.setOffline true).SameButCalls
        (finishOf (Engine.run {} "select * from users output clipboard")
          ⟨Store.tied.setOffline true, .recording []⟩).store) ∧
    (resultOf (Engine.run {} "select * from \"users/a\"") ⟨Store.tied, .recording []⟩ =
        .error (.unplannable (.notACollection "users/a")) ∧
      finishOf (Engine.run {} "select * from \"users/a\"") ⟨Store.tied, .recording []⟩ =
        ⟨Store.tied, .recording []⟩) ∧
    (resultOf (Engine.run {} "select * at \"users/z\" output clipboard")
        ⟨Store.empty, .recording []⟩ = .ok (.saved 0 "clipboard") ∧
      ∃ delivery, (finishOf (Engine.run {} "select * at \"users/z\" output clipboard")
        ⟨Store.empty, .recording []⟩).sink.writes = [delivery]) := by
  have hOffline : resultOf (Engine.run {} "select * from users output clipboard")
      ⟨Store.tied.setOffline true, .recording []⟩ = .error (.store (.unavailable .offline)) :=
    rfl
  have hRefused (store : Store) :
      resultOf (Engine.run {} "select * from \"users/a\"") ⟨store, .recording []⟩ =
        .error (.unplannable (.notACollection "users/a")) :=
    rfl
  have hSaved : resultOf (Engine.run {} "select * at \"users/z\" output clipboard")
      ⟨Store.empty, .recording []⟩ = .ok (.saved 0 "clipboard") := by
    have hQuery : Query.ofText "select * at \"users/z\" output clipboard" =
        .ok (.select (.toClipboard ⟨"users/z", .document⟩)) := rfl
    let world : World := ⟨Store.empty, .recording []⟩
    have hFetch : resultOf (Plan.fetch (.forDocument ⟨"users/z", .document⟩ []) standardMaximum)
        world.store = .ok [] := rfl
    have hSelection : resultOf ((Select.toClipboard ⟨"users/z", .document⟩).selection
        standardMaximum) world.store = .ok [] := by
      have hPlanned := (leads_planned rfl world.store).bind (Plan.leads_select rfl
        (leads_of (Plan.fetch (.forDocument ⟨"users/z", .document⟩ []) standardMaximum) _))
      refine hPlanned.resultOf_eq.trans ?_
      rw [hFetch]
      simp [Plan.forDocument, Except.map, sortDocuments, filterDocuments]
    have hLeads := leads_of ((Select.toClipboard ⟨"users/z", .document⟩).selection
      standardMaximum) world.store
    rw [hSelection] at hLeads
    rw [Engine.run, hQuery]
    exact (@leads_select {} _ world _ _ hLeads).resultOf_eq
  have hSink (devices : Devices) : Sink.recording [] ≠ .devices devices := by simp
  refine ⟨⟨hOffline, ?_⟩, ⟨hRefused _, ?_⟩, hSaved, ?_⟩
  · exact ((failure_leaves_everything {} _ hSink).fails _ hOffline).1
  · exact (failure_leaves_everything {} _ hSink).refuses _ (hRefused _) trivial
  · exact (failure_leaves_everything {} _ hSink).delivers.mp ⟨_, _, hSaved⟩

end DocQuery
