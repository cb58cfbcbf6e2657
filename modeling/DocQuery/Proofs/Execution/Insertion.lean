import DocQuery.Proofs.Execution.Addresses
import DocQuery.Proofs.Execution.Failure

/-! What an insert with an identifier does. It creates one document where there
was none, which is then found by its path and among the documents of its
collection, or it changes nothing. -/
namespace DocQuery

namespace Store

/-- A document may be created in a collection under an identifier, if there is
none yet. -/
structure Admits (store : Store) (collection id : String) : Prop where
  intoCollection : isCollection (Path.trim collection) = true
  name : id ≠ "" ∧ '/' ∉ id.toList
  online : store.offline = false
  writable : store.failing.contains (Path.child (Path.trim collection) id) = false

variable {store : Store} {collection id : String} {fields : Fields}

/-- An identifier that is given is taken if it is a single segment. -/
theorem leads_chooseId (hName : id ≠ "" ∧ '/' ∉ id.toList) (store : Store) :
    Leads (chooseId (some id)) store (.ok id) store := by
  rw [chooseId, if_neg (not_or.mpr hName)]
  exact leads_pure id store

/-- Where a document may be created, there only remains to be seen whether there
is one. -/
theorem Admits.leads_create_place (h : store.Admits collection id)
    {result : Except StoreError String} {finish : Store}
    (hPlace : Leads (do
      if (← get).documents.contains (Path.child (Path.trim collection) id) then
        throw (.alreadyExists (Path.child (Path.trim collection) id))
      modify fun store => { store with
        documents := store.documents.put (Path.child (Path.trim collection) id) fields }
      return Path.child (Path.trim collection) id : StoreM String)
      (store.counted fun calls => { calls with creates := calls.creates + 1 }) result finish) :
    Leads (Store.create collection (some id) fields) store result finish := by
  rw [Store.create]
  apply (leads_count store _).bind
  apply (leads_requireOnline (store.counted _) h.online).bind
  dsimp only
  rw [h.intoCollection]
  apply (leads_chooseId h.name _).bind
  apply (leads_requireWritable (store.counted _) h.online h.writable).bind
  exact hPlace

/-- Where a store admits a document and its path is vacant, the document is
created. -/
theorem Admits.leads_create (h : store.Admits collection id)
    (hVacant : store.documents.get? (Path.child (Path.trim collection) id) = none) :
    Leads (Store.create collection (some id) fields) store
      (.ok (Path.child (Path.trim collection) id))
      { store.counted (fun calls => { calls with creates := calls.creates + 1 }) with
        documents := store.documents.put (Path.child (Path.trim collection) id) fields } := by
  apply h.leads_create_place
  apply (leads_get _).bind
  have hContains : store.documents.contains (Path.child (Path.trim collection) id) = false := by
    rw [Documents.contains, hVacant]
    rfl
  rw [counted, hContains]
  exact (leads_modify _ _).bind (leads_pure _ _)

/-- Where the path is taken the document is refused as existing. -/
theorem Admits.leads_create_of_stored (h : store.Admits collection id) {stored : Fields}
    (hStored : store.documents.get? (Path.child (Path.trim collection) id) = some stored) :
    Leads (Store.create collection (some id) fields) store
      (.error (.alreadyExists (Path.child (Path.trim collection) id)))
      (store.counted fun calls => { calls with creates := calls.creates + 1 }) := by
  apply h.leads_create_place
  apply (leads_get _).bind
  have hContains : store.documents.contains (Path.child (Path.trim collection) id) = true := by
    rw [Documents.contains, hStored]
    rfl
  rw [counted, hContains]
  exact (leads_throw _ _).bind_error

/-- Every check that a creation makes is passed if it succeeds, in the order of
the checks. -/
theorem admits_of_create {path : String}
    (h : resultOf (Store.create collection (some id) fields) store = .ok path) :
    store.Admits collection id := by
  rw [Store.create, (leads_count store _).resultOf_bind] at h
  cases hOnline : store.offline with
  | true =>
      rw [(leads_requireOnline_of_offline (store.counted _) hOnline).bind_error.resultOf_eq] at h
      cases h
  | false =>
      rw [(leads_requireOnline (store.counted _) hOnline).resultOf_bind] at h
      dsimp only at h
      cases hCollection : isCollection (Path.trim collection) with
      | false =>
          rw [hCollection] at h
          cases h
      | true =>
          rw [hCollection, Bool.not_true, if_neg Bool.false_ne_true] at h
          by_cases hName : id = "" ∨ '/' ∈ id.toList
          · rw [chooseId, if_pos hName] at h
            cases h
          · have hFree := not_or.mp hName
            rw [(leads_chooseId hFree _).resultOf_bind] at h
            cases hWritable : store.failing.contains (Path.child (Path.trim collection) id) with
            | true =>
                rw [(leads_requireWritable_of_failing (store.counted _) hOnline
                  hWritable).bind_error.resultOf_eq] at h
                cases h
            | false => exact ⟨hCollection, hFree, hOnline, hWritable⟩

theorem vacant_of_create {path : String}
    (h : resultOf (Store.create collection (some id) fields) store = .ok path) :
    store.documents.get? (Path.child (Path.trim collection) id) = none := by
  cases hStored : store.documents.get? (Path.child (Path.trim collection) id) with
  | none => rfl
  | some stored =>
      rw [((admits_of_create h).leads_create_of_stored hStored).resultOf_eq] at h
      cases h

end Store

namespace Insert

/-- The path of the document that an insert creates. -/
def path (q : Insert) (id : String) : String :=
  Path.child (Path.trim q.collection) id

/-- An insert is into a collection, with one name of a path, at a place that is
free and can be written to. -/
structure Accepted (q : Insert) (id : String) (store : Store) : Prop where
  collection : Path.trim q.collection ≠ ""
  odd : Path.depth (Path.trim q.collection) % 2 = 1
  name : id ≠ "" ∧ '/' ∉ id.toList
  online : store.offline = false
  writable : q.path id ∉ store.failing
  vacant : store.documents.get? (q.path id) = none

def document (q : Insert) (id : String) : Document :=
  ⟨q.path id, patchOf q.setters⟩

/-- The store after an insert. -/
def filled (q : Insert) (id : String) (store : Store) : Store :=
  { store.counted (fun calls => { calls with creates := calls.creates + 1 }) with
    documents := store.documents.put (q.path id) (patchOf q.setters) }

variable {q : Insert} {id : String} {store : Store} {world : World}

/-- The target of an insert is accepted exactly if it is a collection. -/
theorem check_eq_ok_iff :
    q.check = .ok () ↔ q.collection ≠ "" ∧ Path.isDocument q.collection = false := by
  rw [check]
  split
  · rename_i hBad
    constructor
    · exact nofun
    · rintro ⟨hEmpty, hOdd⟩
      rcases hBad with hBad | hBad
      · exact absurd hBad hEmpty
      · cases hOdd.symm.trans hBad
  · rename_i hGood
    exact ⟨fun _ => ⟨fun h => hGood (Or.inl h), by simpa using fun h => hGood (Or.inr h)⟩,
      fun _ => rfl⟩

namespace Accepted

variable (h : q.Accepted id store)
include h

theorem isDocument_collection : Path.isDocument q.collection = false := by
  rw [Path.isDocument, ← Path.depth_trim, h.odd]
  rfl

theorem admits : store.Admits q.collection id := by
  have hOdd := h.isDocument_collection
  rw [Path.isDocument, ← Path.depth_trim] at hOdd
  constructor
  · simp [Store.isCollection, h.collection, Path.isDocument, hOdd]
  · exact h.name
  · exact h.online
  · simpa [path] using h.writable

theorem check : q.check = .ok () := by
  apply check_eq_ok_iff.mpr
  constructor
  · intro hEmpty
    apply h.collection
    rw [hEmpty]
    rfl
  · exact h.isDocument_collection

theorem trimmed : Path.Trimmed (q.path id) :=
  Path.trimmed_child ⟨h.collection, Path.trimmed_trim q.collection⟩ h.name

theorem isDocument : Path.isDocument (q.path id) = true := by
  apply Path.isDocument_child _ h.name
  rw [Path.isDocument, h.odd]
  rfl

theorem contains : (Scope.collection q.collection).contains (q.path id) = true := by
  rw [Scope.contains, path, Path.parent?_child _ h.name.2]
  exact beq_self_eq_true _

end Accepted

/-- A checked insert ends as the creation of its document does. -/
theorem leads_insert (hCheck : q.check = .ok ()) {result : Except StoreError String}
    {finish : Store}
    (h : Leads (Store.create q.collection q.identifier (patchOf q.setters)) world.store
      result finish) :
    Leads (Engine.insert q) world ((result.mapError QueryError.store).map fun _ => .written 1 [])
      { world with store := finish } := by
  apply Leads.onStore
  apply (leads_planned hCheck world.store).bind
  cases result with
  | ok path => exact h.call.bind (leads_pure _ _)
  | error fault => exact h.call.bind_error

/-- An accepted insert writes one document and changes nothing else. -/
theorem leads_of_accepted (hId : q.identifier = some id) (h : q.Accepted id world.store) :
    Leads (Engine.insert q) world (.ok (.written 1 []))
      { world with store := q.filled id world.store } := by
  have hCreate : Leads (Store.create q.collection q.identifier (patchOf q.setters)) world.store
      (.ok (q.path id)) (q.filled id world.store) := by
    rw [hId]
    exact h.admits.leads_create h.vacant
  exact leads_insert h.check hCreate

/-- The place is taken now. -/
theorem resultOf_again (hId : q.identifier = some id) (h : q.Accepted id world.store) :
    resultOf (Engine.insert q) { world with store := q.filled id world.store } =
      .error (.store (.alreadyExists (q.path id))) := by
  have hCreate : Leads (Store.create q.collection q.identifier (patchOf q.setters))
      (q.filled id world.store) (.error (.alreadyExists (q.path id)))
      ((q.filled id world.store).counted fun calls =>
        { calls with creates := calls.creates + 1 }) := by
    have hStill : (q.filled id world.store).Admits q.collection id :=
      ⟨h.admits.intoCollection, h.admits.name, h.admits.online, h.admits.writable⟩
    rw [hId]
    exact hStill.leads_create_of_stored (Documents.get?_put_self h.vacant (patchOf q.setters))
  exact (@leads_insert q { world with store := q.filled id world.store } h.check _ _
    hCreate).resultOf_eq

theorem accepted_of_ok (hId : q.identifier = some id) {outcome : Outcome}
    (h : resultOf (Engine.insert q) world = .ok outcome) : q.Accepted id world.store := by
  obtain ⟨hAccess, _⟩ := onStore_eq_ok h
  obtain ⟨_, hCheck, hRest, _⟩ := planned_bind_eq_ok hAccess
  obtain ⟨created, hCall, _, _⟩ := exists_of_bind_eq_ok hRest
  obtain ⟨hCreate, _⟩ := call_eq_ok hCall
  rw [hId] at hCreate
  have hAdmits := Store.admits_of_create hCreate
  obtain ⟨_, hOdd⟩ := check_eq_ok_iff.mp hCheck
  rw [Path.isDocument, ← Path.depth_trim] at hOdd
  constructor
  · have hCollection := hAdmits.intoCollection
    simp only [Store.isCollection, Bool.and_eq_true, decide_eq_true_eq] at hCollection
    exact hCollection.1
  · have hNotEven := beq_eq_false_iff_ne.mp hOdd
    omega
  · exact hAdmits.name
  · exact hAdmits.online
  · simpa [path] using hAdmits.writable
  · exact Store.vacant_of_create hCreate

/-- Where an insert has created its document, and where it has not. -/
structure Creates (q : Insert) (id : String) (before after : World) : Prop where
  here : after.store.documents.get? (q.path id) = some (patchOf q.setters)
  elsewhere : ∀ path, path ≠ q.path id →
    after.store.documents.get? path = before.store.documents.get? path
  gained : after.store.documents.toList.Perm (q.document id :: before.store.documents.toList)
  /-- The document is found at its path, with the path among its fields. -/
  read : ∀ engine : Engine,
    resultOf (engine.run ("select * at " ++ Text.quote (q.path id))) after =
      .ok (.documents (.array [(q.document id).toValue]))
  /-- It is found once among the documents of the collection, if these are not
  too many. -/
  listed : ∀ engine : Engine,
    (after.store.documents.toList.filter fun document =>
      (Scope.collection q.collection).contains document.path).length ≤ engine.maximum →
    ∃ documents : List Document,
      resultOf (engine.run ("select * from " ++ Text.quote q.collection)) after =
        .ok (.documents (.array (documents.map Document.toValue))) ∧
      q.document id ∈ documents ∧ (documents.map Document.path).count (q.path id) = 1
  /-- There is no second one. -/
  again : ∀ engine : Engine, resultOf (engine.execute (.insert q)) after =
    .error (.store (.alreadyExists (q.path id)))

/-- The document that was stored is the one that is read, at its path and in its
collection. -/
theorem Accepted.creates (hId : q.identifier = some id) (h : q.Accepted id world.store) :
    q.Creates id world { world with store := q.filled id world.store } := by
  have hHere : (q.filled id world.store).documents.get? (q.path id) = some (patchOf q.setters) :=
    Documents.get?_put_self h.vacant (patchOf q.setters)
  have hOnline : (q.filled id world.store).offline = false := h.online
  constructor
  · exact hHere
  · intro path hPath
    exact Documents.get?_put_of_ne h.vacant (patchOf q.setters) hPath
  · exact Documents.perm_put h.vacant (patchOf q.setters)
  · intro engine
    have hRead := @Engine.resultOf_run_at _ h.trimmed h.isDocument engine
      { world with store := q.filled id world.store } hOnline
    rw [hRead, hHere]
    rfl
  · intro engine hMaximum
    obtain ⟨documents, hRun, hPaths, hShown⟩ := @Engine.exists_run_from q.collection
      { world with store := q.filled id world.store } engine h.isDocument_collection hOnline
      hMaximum
    have hListed : q.document id ∈ documents := by
      apply (hShown _).mpr
      exact ⟨Documents.mem_of_get? hHere, h.contains⟩
    have hPath : q.path id ∈ documents.map Document.path :=
      List.mem_map.mpr ⟨q.document id, hListed, rfl⟩
    exact ⟨documents, hRun, hListed, List.count_eq_one_of_mem hPaths hPath⟩
  · intro engine
    exact resultOf_again hId h

end Insert

/-- An insert with an identifier succeeds exactly where it is accepted. Then it
has created its document and nothing else; otherwise every document is as it
was. -/
theorem Engine.insert_creates_one_or_nothing (engine : Engine) (q : Insert) {id : String}
    (hId : q.identifier = some id) (world : World) :
    ((∃ outcome, resultOf (engine.execute (.insert q)) world = .ok outcome) ↔
      q.Accepted id world.store) ∧
    (∀ outcome, resultOf (engine.execute (.insert q)) world = .ok outcome →
      outcome = .written 1 [] ∧
      q.Creates id world (finishOf (engine.execute (.insert q)) world)) ∧
    ∀ fault, resultOf (engine.execute (.insert q)) world = .error fault →
      (finishOf (engine.execute (.insert q)) world).store.documents = world.store.documents := by
  refine ⟨⟨?_, ?_⟩, ?_, ?_⟩
  · rintro ⟨outcome, hOk⟩
    exact q.accepted_of_ok hId hOk
  · intro hAccepted
    exact ⟨_, (q.leads_of_accepted hId hAccepted).resultOf_eq⟩
  · intro outcome hOk
    have hAccepted := q.accepted_of_ok hId hOk
    have hRun := q.leads_of_accepted hId hAccepted
    constructor
    · exact (Except.ok.inj (hRun.resultOf_eq.symm.trans hOk)).symm
    · rw [execute, hRun.finishOf_eq]
      exact hAccepted.creates hId
  · intro fault hFault
    have hUnrecorded : Store.Unrecorded fun store => store.documents = world.store.documents :=
      fun _ _ _ h => h
    exact engine.keepsFailing_execute hUnrecorded (.insert q) world rfl fault hFault

/-- One more user, with slashes around the name of the collection. -/
def Insert.oneUser (id : String) : Insert :=
  ⟨"/users/", [⟨"age", .null⟩], some id⟩

/-- The first user is new, and the second is there already. -/
theorem Engine.insert_creates_one_or_nothing_tied :
    (resultOf (execute {} (.insert (.oneUser "c"))) ⟨Store.tied, .none⟩ = .ok (.written 1 []) ∧
      resultOf (run {} "select * at \"users/c\"")
        (finishOf (execute {} (.insert (.oneUser "c"))) ⟨Store.tied, .none⟩) =
          .ok (.documents (.array [.object [("age", .null), ("_path", .string "users/c")]]))) ∧
    resultOf (execute {} (.insert (.oneUser "a"))) ⟨Store.tied, .none⟩ =
      .error (.store (.alreadyExists "users/a")) ∧
    (finishOf (execute {} (.insert (.oneUser "a"))) ⟨Store.tied, .none⟩).store.documents =
      Store.tied.documents := by
  have hPath : Insert.path (.oneUser "c") "c" = "users/c" := by decide +kernel
  have hVacant : Store.tied.documents.get? "users/c" = none := by
    rw [Documents.get?, Store.toList_tied]
    rfl
  have hAccepted : Insert.Accepted (.oneUser "c") "c" Store.tied :=
    { collection := by decide +kernel
      odd := by decide +kernel
      name := by decide +kernel
      online := rfl
      writable := by rw [hPath]; exact List.not_mem_nil
      vacant := by rw [hPath, hVacant] }
  have hFirst := insert_creates_one_or_nothing {} (.oneUser "c") rfl ⟨Store.tied, .none⟩
  obtain ⟨outcome, hOk⟩ := hFirst.1.mpr hAccepted
  obtain ⟨rfl, hCreates⟩ := hFirst.2.1 outcome hOk
  have hTaken : resultOf (execute {} (.insert (.oneUser "a"))) ⟨Store.tied, .none⟩ =
      .error (.store (.alreadyExists "users/a")) := rfl
  have hSecond := insert_creates_one_or_nothing {} (.oneUser "a") rfl ⟨Store.tied, .none⟩
  refine ⟨⟨hOk, ?_⟩, hTaken, hSecond.2.2 _ hTaken⟩
  have hText : "select * at \"users/c\"" = "select * at " ++ Text.quote "users/c" := by
    decide +kernel
  have hRead := hCreates.read {}
  rw [Insert.document, hPath] at hRead
  rw [hText, hRead]
  rfl

end DocQuery
