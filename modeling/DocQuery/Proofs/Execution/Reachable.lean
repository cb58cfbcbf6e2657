import DocQuery.Proofs.Selection.Paging
import DocQuery.Proofs.Store.Writes

/-! The stores that calls and statements lead to. What a single write to the
store keeps is kept by every statement, whatever fails on the way. So every
document of a store that can be reached is at a path without slashes around it
and at an even depth. -/
namespace DocQuery

namespace Store

/-- A property of stores to which it is all the same which calls were made so
far. -/
def Unrecorded (P : Store → Prop) : Prop :=
  ∀ (store : Store) (calls : Calls) (history : List Fetched), P store →
    P { store with calls, history }

section Reading

variable {P : Store → Prop} (h : Unrecorded P)

theorem keeps_requireOnline : Keeps P Store.requireOnline := by
  refine keeps_get.bind fun _ store _ => ?_
  cases store.offline with
  | true => exact keeps_throw _
  | false => exact keeps_pure ()

theorem keeps_requireWritable (path : String) : Keeps P (Store.requireWritable path) := by
  refine keeps_requireOnline.bind fun _ _ _ => keeps_get.bind fun _ store _ => ?_
  cases store.failing.contains path with
  | true => exact keeps_throw _
  | false => exact keeps_pure ()

theorem keeps_listCollections (parent : Option String) : Keeps P (Store.listCollections parent) :=
  keeps_requireOnline.bind fun _ _ _ => keeps_get.bind fun _ _ _ => keeps_pure _

include h

theorem keeps_count (call : Calls → Calls) : Keeps P (Store.count call) :=
  keeps_modify fun store => h store (call store.calls) store.history

theorem keeps_fetch (request : FetchRequest) : Keeps P (Store.fetch request) :=
  (keeps_count h _).bind fun _ _ _ => keeps_requireOnline.bind fun _ _ _ =>
    keeps_get.bind fun _ _ _ =>
      (keeps_modify fun store => h store store.calls _).bind fun _ _ _ => keeps_pure _

theorem keeps_getDocument (path : String) : Keeps P (Store.getDocument path) :=
  (keeps_count h _).bind fun _ _ _ => keeps_requireOnline.bind fun _ _ _ =>
    keeps_get.bind fun _ _ _ => keeps_pure _

end Reading
end Store

section Statements

variable {P : Store → Prop}

theorem Store.keeps_collectionsBelow (documents : List Document) :
    Keeps P (Store.collectionsBelow documents) := by
  have hNames (documents : List Document) : Keeps P
      (documents.mapM fun document => Store.listCollections (some document.path)) := by
    induction documents with
    | nil => exact keeps_pure []
    | cons document rest ih =>
        rw [List.mapM_cons]
        exact (Store.keeps_listCollections _).bind fun _ _ _ => ih.bind fun _ _ _ => keeps_pure _
  exact (hNames documents).bind fun _ _ _ => keeps_pure _

variable (h : Store.Unrecorded P)
include h

/-- Fetching in pages keeps what a single fetch keeps. -/
theorem Plan.keeps_fetchBatches (request : FetchRequest) (size maximum attempts : Nat)
    (found : List Document) : Keeps P (fetchBatches request size maximum attempts found) := by
  induction attempts generalizing found with
  | zero => exact keeps_pure found
  | succ attempts ih =>
      refine (Store.keeps_fetch h _).call.bind fun _ batch _ =>
        (keeps_requireAtMost _ _).bind fun _ _ _ => ?_
      split
      · exact keeps_pure _
      · exact ih _

theorem Plan.keeps_fetchAll (request : FetchRequest) (maximum : Nat) :
    Keeps P (fetchAll request maximum) :=
  (Store.keeps_fetch h request).call.bind fun _ _ _ =>
    (keeps_requireAtMost _ _).bind fun _ _ _ => keeps_pure _

theorem Plan.keeps_fetch (plan : Plan) (maximum : Nat) : Keeps P (plan.fetch maximum) := by
  rw [fetch]
  cases plan.strategy with
  | document => exact (Store.keeps_getDocument h _).call.bind fun _ _ _ => keeps_pure _
  | limited limit => exact (keeps_planned _).bind fun _ _ _ => keeps_fetchAll h _ maximum
  | unbounded => exact (keeps_planned _).bind fun _ _ _ => keeps_fetchAll h _ maximum
  | paged size =>
      exact (keeps_planned _).bind fun _ _ _ => keeps_get.bind fun _ _ _ =>
        keeps_fetchBatches h _ _ _ _ _

theorem Plan.keeps_select (plan : Plan) (maximum : Nat) : Keeps P (plan.select maximum) :=
  (keeps_planned _).bind fun _ _ _ => (keeps_fetch h plan maximum).bind fun _ _ _ => keeps_pure _

theorem Select.keeps_selection (q : Select) (maximum : Nat) : Keeps P (q.selection maximum) :=
  (keeps_planned _).bind fun _ plan _ => plan.keeps_select h maximum

end Statements

/-- What calls keep that read the store or write to it. -/
structure Store.KeptByCalls (P : Store → Prop) : Prop where
  unrecorded : Store.Unrecorded P
  update : ∀ path patch, Keeps P (Store.update path patch)
  delete : ∀ path, Keeps P (Store.delete path)
  create : ∀ collection id fields, Keeps P (Store.create collection id fields)

section Statements

variable {P : Store → Prop}

/-- Writing one document after the other keeps what each write keeps. -/
theorem Store.keeps_writeEach {write : String → StoreM Unit} (h : ∀ path, Keeps P (write path))
    (documents : List Document) :
    ∀ store, P store → P ((Store.writeEach write documents).run store).2 := by
  induction documents with
  | nil => exact fun _ hStore => hStore
  | cons document rest ih =>
      intro store hStore
      rw [Store.run_writeEach_cons (leads_of (write document.path) store) rfl]
      exact ih _ (h document.path store hStore)

theorem Engine.keeps_output (engine : Engine) (clause : Option OutputClause) (count : Nat)
    (result : ResultSet) :
    Keeps (fun world => P world.store) (engine.output clause count result) := by
  have hDeliver (destination : Destination) (text : String) : Keeps (fun world => P world.store)
      (Run.deliver destination text) :=
    fun _ hStore => hStore
  cases clause with
  | none => exact keeps_pure _
  | some clause =>
      rw [output]
      dsimp only
      split
      · exact keeps_pure _
      · exact keeps_pure _
      · exact (hDeliver _ _).bind fun _ _ _ => keeps_pure _
      · exact (hDeliver _ _).bind fun _ _ _ => keeps_pure _

theorem Engine.keeps_writeSelected (h : Store.Unrecorded P) (engine : Engine)
    (plan : Except PlanError Plan) {write : String → StoreM Unit}
    (hWrite : ∀ path, Keeps P (write path)) :
    Keeps (fun world => P world.store) (engine.writeSelected plan write) := by
  apply Keeps.onStore
  refine (keeps_planned _).bind fun _ plan _ => (plan.keeps_select h _).bind fun _ documents _ => ?_
  have hEach : Keeps P (liftM (Store.writeEach write documents) : Access (Nat × List String)) :=
    Store.keeps_writeEach hWrite documents
  exact hEach.bind fun _ _ _ => keeps_pure _

theorem Engine.keeps_select (h : Store.Unrecorded P) (engine : Engine) (q : Select) :
    Keeps (fun world => P world.store) (engine.select q) :=
  (q.keeps_selection h _).onStore.bind fun _ _ _ => engine.keeps_output _ _ _

theorem Engine.keeps_showCollections (h : Store.Unrecorded P) (engine : Engine) (q : Show) :
    Keeps (fun world => P world.store) (engine.showCollections q) := by
  refine Keeps.onStore ((keeps_planned _).bind fun _ target _ => ?_)
  cases target with
  | root => exact (Store.keeps_listCollections _).call.bind fun _ _ _ => keeps_pure _
  | document path => exact (Store.keeps_listCollections _).call.bind fun _ _ _ => keeps_pure _
  | below plan =>
      exact (plan.keeps_fetch h _).bind fun _ documents _ =>
        (Store.keeps_collectionsBelow documents).call.bind fun _ _ _ => keeps_pure _

/-- Executing keeps whatever every call of the store keeps. -/
theorem Engine.keeps_execute (h : Store.KeptByCalls P) (engine : Engine) (query : Query) :
    Keeps (fun world => P world.store) (engine.execute query) := by
  cases query with
  | select q => exact engine.keeps_select h.unrecorded q
  | update q => exact engine.keeps_writeSelected h.unrecorded _ fun path => h.update path _
  | delete q => exact engine.keeps_writeSelected h.unrecorded _ h.delete
  | insert q =>
      exact ((keeps_planned _).bind fun _ _ _ => (h.create _ _ _).call.bind fun _ _ _ =>
        keeps_pure _).onStore
  | «show» q => exact engine.keeps_showCollections h.unrecorded q

end Statements

namespace Store

/-- Every document is at a path without slashes around it and at an even
depth. -/
def WellAddressed (store : Store) : Prop :=
  ∀ document ∈ store.documents.toList,
    Path.Trimmed document.path ∧ Path.isDocument document.path = true

variable {store : Store}

theorem unrecorded_wellAddressed : Unrecorded WellAddressed :=
  fun _ _ _ h => h

/-- A document may be put at a trimmed path of a document. -/
theorem WellAddressed.put (h : store.WellAddressed) {path : String}
    (hPath : Path.Trimmed path ∧ Path.isDocument path = true) (fields : Fields) :
    WellAddressed { store with documents := store.documents.put path fields } := by
  intro document hDocument
  rcases Documents.mem_put hDocument with hHere | hOld
  · exact hHere ▸ hPath
  · exact h document hOld

theorem WellAddressed.remove (h : store.WellAddressed) (path : String) :
    WellAddressed { store with documents := store.documents.remove path } :=
  fun document hDocument => h document (List.mem_of_mem_filter hDocument)

theorem keeps_put (path : String) (value : Value) : Keeps WellAddressed (Store.put path value) := by
  unfold Store.put
  dsimp only
  cases hDocument : Path.isDocument (Path.trim path) with
  | false => exact keeps_throw_bind _ _
  | true =>
      cases value with
      | object fields =>
          exact keeps_modify fun store h => h.put ⟨Path.trimmed_trim path, hDocument⟩ fields
      | null => exact keeps_throw _
      | bool b => exact keeps_throw _
      | number n => exact keeps_throw _
      | string s => exact keeps_throw _
      | array items => exact keeps_throw _

/-- Seeding puts each document at a path of its own below the collection. -/
theorem keeps_seedFrom (collection : String) (place : Nat) (values : List Value) :
    Keeps WellAddressed (seedFrom collection place values) := by
  induction values generalizing place with
  | nil => exact keeps_pure ()
  | cons value rest ih => exact (keeps_put _ value).bind fun _ _ _ => ih _

theorem keeps_update (path : String) (patch : Fields) :
    Keeps WellAddressed (Store.update path patch) := by
  refine (keeps_count unrecorded_wellAddressed _).bind fun _ _ _ =>
    (keeps_requireWritable _).bind fun _ _ _ => ?_
  apply keeps_get_bind
  intro store hStore
  cases hGet : store.documents.get? (Path.trim path) with
  | none => exact hStore
  | some fields =>
      have hAddress := hStore _ (Documents.mem_of_get? hGet)
      exact hStore.put hAddress _

theorem keeps_delete (path : String) : Keeps WellAddressed (Store.delete path) :=
  (keeps_count unrecorded_wellAddressed _).bind fun _ _ _ =>
    (keeps_requireWritable _).bind fun _ _ _ => keeps_modify fun _ h => h.remove _

/-- An identifier is one name of a path, whether it was given or made. -/
theorem name_of_chooseId {id : Option String} {name : String}
    (h : resultOf (chooseId id) store = .ok name) : name ≠ "" ∧ '/' ∉ name.toList := by
  cases id with
  | none =>
      obtain rfl := Except.ok.inj h
      exact store.ids.usable _
  | some id =>
      by_cases hBad : id = "" ∨ '/' ∈ id.toList
      · rw [chooseId, if_pos hBad] at h
        cases h
      · rw [chooseId, if_neg hBad] at h
        obtain rfl := Except.ok.inj h
        exact not_or.mp hBad

theorem keeps_chooseId {P : Store → Prop} (id : Option String) : Keeps P (chooseId id) := by
  cases id with
  | none => exact keeps_get.bind fun _ _ _ => keeps_pure _
  | some id =>
      rw [chooseId]
      split
      · exact keeps_throw _
      · exact keeps_pure id

/-- Creating checks the path that it puts a document at. -/
theorem keeps_create (collection : String) (id : Option String) (fields : Fields) :
    Keeps WellAddressed (Store.create collection id fields) := by
  rw [Store.create]
  refine (keeps_count unrecorded_wellAddressed _).bind fun _ _ _ =>
    keeps_requireOnline.bind fun _ _ _ => ?_
  dsimp only
  cases hCollection : isCollection (Path.trim collection) with
  | false => exact keeps_throw_bind _ _
  | true =>
      obtain ⟨hName, hOdd⟩ : Path.trim collection ≠ "" ∧
          Path.isDocument (Path.trim collection) = false := by
        simpa [isCollection] using hCollection
      refine (keeps_chooseId id).bind fun start name hChosen =>
        (keeps_requireWritable _).bind fun _ _ _ => keeps_get.bind fun _ store _ => ?_
      have hChild := name_of_chooseId hChosen
      have hPath : Path.Trimmed (Path.child (Path.trim collection) name) ∧
          Path.isDocument (Path.child (Path.trim collection) name) = true :=
        ⟨Path.trimmed_child ⟨hName, Path.trimmed_trim collection⟩ hChild,
          Path.isDocument_child hOdd hChild⟩
      split
      · exact keeps_throw_bind _ _
      · exact (keeps_modify fun store h => h.put hPath fields).bind fun _ _ _ => keeps_pure _

theorem keptByCalls_wellAddressed : KeptByCalls WellAddressed :=
  ⟨unrecorded_wellAddressed, keeps_update, keeps_delete, keeps_create⟩

/-- One call to the store or one statement, with any result. -/
inductive Step : Store → Store → Prop where
  | put (path : String) (value : Value) (store : Store) :
      Step store (finishOf (Store.put path value) store)
  | seed (collection : String) (values : List Value) (store : Store) :
      Step store (finishOf (Store.seed collection values) store)
  | failWritesTo (path : String) (store : Store) : Step store (store.failWritesTo path)
  | setOffline (offline : Bool) (store : Store) : Step store (store.setOffline offline)
  | fetch (request : FetchRequest) (store : Store) :
      Step store (finishOf (Store.fetch request) store)
  | getDocument (path : String) (store : Store) :
      Step store (finishOf (Store.getDocument path) store)
  | update (path : String) (patch : Fields) (store : Store) :
      Step store (finishOf (Store.update path patch) store)
  | delete (path : String) (store : Store) : Step store (finishOf (Store.delete path) store)
  | create (collection : String) (id : Option String) (fields : Fields) (store : Store) :
      Step store (finishOf (Store.create collection id fields) store)
  | listCollections (parent : Option String) (store : Store) :
      Step store (finishOf (Store.listCollections parent) store)
  | execute (engine : Engine) (query : Query) (sink : Sink) (store : Store) :
      Step store (finishOf (engine.execute query) ⟨store, sink⟩).store

/-- The stores that steps lead to from one without documents, wherever it takes
identifiers from. -/
inductive Reachable : Store → Prop where
  | empty (ids : IdSource) : Reachable { Store.empty with ids }
  | step {store next : Store} : Reachable store → Step store next → Reachable next

/-- No step leads away from a well-addressed store. -/
theorem Step.wellAddressed {next : Store} (h : Step store next) (hStore : store.WellAddressed) :
    next.WellAddressed := by
  cases h with
  | put path value => exact keeps_put path value store hStore
  | seed collection values => exact keeps_seedFrom collection 0 values store hStore
  | failWritesTo path => exact hStore
  | setOffline offline => exact hStore
  | fetch request => exact keeps_fetch unrecorded_wellAddressed request store hStore
  | getDocument path => exact keeps_getDocument unrecorded_wellAddressed path store hStore
  | update path patch => exact keeps_update path patch store hStore
  | delete path => exact keeps_delete path store hStore
  | create collection id fields => exact keeps_create collection id fields store hStore
  | listCollections parent => exact keeps_listCollections parent store hStore
  | execute engine query sink =>
      exact engine.keeps_execute keptByCalls_wellAddressed query ⟨store, sink⟩ hStore

/-- In every store that can be reached, documents stand at trimmed paths of
documents. -/
theorem Reachable.wellAddressed (h : store.Reachable) : store.WellAddressed := by
  induction h with
  | empty ids => exact nofun
  | step _ hStep ih => exact hStep.wellAddressed ih

/-- Any fields can be stored at the path of a document. -/
theorem Reachable.put (h : store.Reachable) {path : String}
    (hTrimmed : Path.Trimmed path) (hDocument : Path.isDocument path = true) (fields : Fields) :
    Reachable { store with documents := store.documents.put path fields } := by
  have hPut : Leads (Store.put path (.object fields)) store (.ok ())
      { store with documents := store.documents.put path fields } := by
    unfold Store.put
    dsimp only
    rw [Path.trim_eq_self hTrimmed, hDocument]
    exact leads_modify _ store
  have hStep := Step.put path (.object fields) store
  rw [hPut.finishOf_eq] at hStep
  exact h.step hStep

end Store

end DocQuery
