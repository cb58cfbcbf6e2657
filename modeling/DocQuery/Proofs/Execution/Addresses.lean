import DocQuery.Execution.Explanation
import DocQuery.Proofs.Execution.Reachable
import DocQuery.Proofs.Query.RoundTrip
import DocQuery.Proofs.Selection.Picks

/-! Documents under their paths. A select of everything at a path or from a
collection shows what is stored there, so every document of a store that can be
reached is found again by the statement that asks for it, however odd its path
looks. -/
namespace DocQuery

section Shown

variable {subject : Subject} {path : String} {world : World} {finish : Store}
  {documents : List Document}

/-- A select of everything shows what it has selected, one record for each
document. -/
theorem Engine.leads_select_every (engine : Engine)
    (h : Leads ((Select.every subject []).selection engine.maximum) world.store (.ok documents)
      finish) :
    Leads (engine.select (.every subject [])) world
      (.ok (.documents (.array (documents.map Document.toValue)))) { world with store := finish } :=
  engine.leads_select h

/-- No optional clause shows in the text of such a select. -/
theorem Select.text_every (subject : Subject) :
    (Query.select (.every subject [])).text =
      "select * " ++ subject.kind.keyword ++ " " ++ Text.quote subject.path := by
  change "select " ++ "*" ++ " " ++ subject.text ++ "" ++ "" ++ "" ++ "" ++ "" ++ "" ++ "" = _
  rw [String.append_empty, String.append_empty, String.append_empty, String.append_empty,
    String.append_empty, String.append_empty, String.append_empty, Subject.text,
    ← String.append_assoc, ← String.append_assoc]
  rfl

/-- The statements that select everything in a collection or at a path are read
as such. -/
theorem Query.ofText_every (h : subject.WellFormed) :
    Query.ofText ("select * " ++ subject.kind.keyword ++ " " ++ Text.quote subject.path) =
      .ok (.select (.every subject [])) := by
  have hWell : (Select.every subject []).WellFormed := by
    constructor
    · exact h
    · trivial
    · simp [Select.every]
    · exact fun _ => rfl
    · simp [Select.every]
    · simp [Select.every]
    · simp [Select.every]
  rw [← Select.text_every]
  exact Query.ofText_text hWell

/-- A quoted path behind `from` is read as this collection. -/
theorem Query.ofText_from (collection : String) :
    Query.ofText ("select * from " ++ Text.quote collection) =
      .ok (.select (.every ⟨collection, .collection⟩ [])) := by
  have hRead := @Query.ofText_every ⟨collection, .collection⟩ nofun
  exact hRead

end Shown

section At

variable {path : String} (hTrimmed : Path.Trimmed path) (hDocument : Path.isDocument path = true)
include hTrimmed hDocument

/-- A quoted path behind `at` is read as this document. -/
theorem Query.ofText_at :
    Query.ofText ("select * at " ++ Text.quote path) =
      .ok (.select (.every ⟨path, .document⟩ [])) := by
  have hRead := @Query.ofText_every ⟨path, .document⟩ fun _ => ⟨hTrimmed, hDocument⟩
  exact hRead

/-- A document path is explained as a direct read. -/
theorem explain_at :
    ∃ explanation, explain ("select * at " ++ Text.quote path) = .ok explanation ∧
      explanation.strategy = some .document := by
  rw [explain, Query.ofText_at hTrimmed hDocument]
  exact ⟨_, rfl, rfl⟩

/-- What is read at a path is the document that is stored there, or nothing. -/
theorem Engine.resultOf_run_at (engine : Engine) {world : World}
    (hOnline : world.store.offline = false) :
    resultOf (engine.run ("select * at " ++ Text.quote path)) world =
      .ok (.documents (.array ((world.store.documents.get? path).map
        fun fields => (Document.mk path fields).toValue).toList)) := by
  have hFetch := @Plan.leads_fetch_document (.forDocument ⟨path, .document⟩ []) rfl
    engine.maximum _ hOnline
  obtain ⟨finish, hSelection⟩ : ∃ finish, Leads
      ((Select.every ⟨path, .document⟩ []).selection engine.maximum) world.store
      (.ok ((world.store.documents.get? path).map (Document.mk path)).toList) finish := by
    have hSelect := (leads_planned rfl world.store).bind (Plan.leads_select rfl hFetch)
    rw [Except.map, Plan.forDocument, filterDocuments_nil, sortDocuments_nil,
      Path.trim_eq_self hTrimmed] at hSelect
    exact ⟨_, hSelect⟩
  rw [run, Query.ofText_at hTrimmed hDocument]
  dsimp only [execute]
  rw [(engine.leads_select_every hSelection).resultOf_eq]
  cases world.store.documents.get? path with
  | none => rfl
  | some fields => rfl

end At

section Listed

variable {collection : String} {world : World}

/-- A path that is no document is planned as a collection. -/
theorem Plan.make_collection (h : Path.isDocument collection = false) :
    Plan.make ⟨collection, .collection⟩ [] [] none none =
      .ok (.forMany ⟨collection, .collection⟩ [] [] none none) := by
  rw [Plan.make, if_neg (by simp), if_neg (by simp [h])]
  rfl

/-- What is in a collection is shown, each document once, if there is not too
much of it. -/
theorem Engine.exists_run_from (engine : Engine) (h : Path.isDocument collection = false)
    (hOnline : world.store.offline = false)
    (hMaximum : (world.store.documents.toList.filter fun document =>
      (Scope.collection collection).contains document.path).length ≤ engine.maximum) :
    ∃ documents : List Document,
      resultOf (engine.run ("select * from " ++ Text.quote collection)) world =
        .ok (.documents (.array (documents.map Document.toValue))) ∧
      (documents.map Document.path).Nodup ∧
      ∀ document, document ∈ documents ↔ document ∈ world.store.documents.toList ∧
        (Scope.collection collection).contains document.path = true := by
  have hSelects : FetchRequest.selects { scope := .collection collection } = fun document =>
      (Scope.collection collection).contains document.path := by
    funext document
    simp [FetchRequest.selects]
  have hPlan : (Select.every ⟨collection, .collection⟩ []).plan =
      .ok (.forMany ⟨collection, .collection⟩ [] [] none none) := Plan.make_collection h
  have hFetch := @Plan.picks_fetch_unbounded (.forMany ⟨collection, .collection⟩ [] [] none none)
    { scope := .collection collection } rfl rfl rfl rfl engine.maximum
  have hPicks := (hFetch.select rfl).congr (Select.resultOf_selection hPlan engine.maximum)
  rw [hSelects] at hPicks
  obtain ⟨documents, hOk⟩ := hPicks.exists_ok hOnline hMaximum
  obtain ⟨_, _, hPaths, hPicked⟩ := hPicks.of_ok hOk
  have hLeads := leads_of ((Select.every ⟨collection, .collection⟩ []).selection engine.maximum)
    world.store
  rw [hOk] at hLeads
  refine ⟨documents, ?_, hPaths, ?_⟩
  · rw [run, Query.ofText_from]
    exact (engine.leads_select_every hLeads).resultOf_eq
  · intro document
    rw [hPicked, Plan.forMany]
    simp

end Listed

namespace Store

variable {store : Store}

/-- A document is stored at a proper path, and there it is found. -/
structure Finds (store : Store) (document : Document) : Prop where
  trimmed : Path.Trimmed document.path
  even : Path.depth document.path % 2 = 0
  planned : ∃ explanation,
    explain ("select * at " ++ Text.quote document.path) = .ok explanation ∧
      explanation.strategy = some .document
  read : store.offline = false → ∀ (engine : Engine) (sink : Sink),
    resultOf (engine.run ("select * at " ++ Text.quote document.path)) ⟨store, sink⟩ =
      .ok (.documents (.array [document.toValue]))

/-- A statement is a step also if it is given as a text. -/
theorem Reachable.run (h : store.Reachable) (engine : Engine) (text : String) (sink : Sink) :
    Reachable (finishOf (engine.run text) ⟨store, sink⟩).store := by
  rw [Engine.run]
  cases Query.ofText text with
  | ok query => exact h.step (.execute engine query sink store)
  | error error => exact h

/-- Whatever calls and statements have led to a store, each of its documents is
found where it is stored. -/
theorem Reachable.finds_every_document (h : store.Reachable) :
    ∀ document ∈ store.documents.toList, store.Finds document := by
  intro document hDocument
  obtain ⟨hTrimmed, hIsDocument⟩ := h.wellAddressed document hDocument
  constructor
  · exact hTrimmed
  · exact beq_iff_eq.mp hIsDocument
  · exact explain_at hTrimmed hIsDocument
  · intro hOnline engine sink
    have hGet := Documents.get?_of_mem hDocument
    rw [engine.resultOf_run_at hTrimmed hIsDocument hOnline, hGet]
    rfl

/-- A name with a quote in it, below a doubled slash and given with slashes
around it. A statement that cannot be read has come in between. -/
theorem Reachable.finds_every_document_quoted :
    resultOf (Engine.run {} "select * at \"users//a\\\"b\"")
      ⟨(finishOf (Engine.run {} "delete")
        ⟨finishOf (Store.put "/users//a\"b/" (.object [("age", .null)])) Store.empty, .none⟩).store,
        .none⟩ =
      .ok (.documents (.array [.object [("age", .null), ("_path", .string "users//a\"b")]])) := by
  have hTrim : Path.trim "/users//a\"b/" = "users//a\"b" := by decide +kernel
  have hDocument : Path.isDocument "users//a\"b" = true := by decide +kernel
  have hText : "select * at \"users//a\\\"b\"" = "select * at " ++ Text.quote "users//a\"b" := by
    decide +kernel
  have hPut : finishOf (Store.put "/users//a\"b/" (.object [("age", .null)])) Store.empty =
      { Store.empty with documents := Documents.empty.put "users//a\"b" [("age", .null)] } := by
    unfold Store.put
    dsimp only
    rw [hTrim, hDocument]
    rfl
  have hReachable := ((Reachable.empty IdSource.counting).step
    (.put "/users//a\"b/" (.object [("age", .null)]) Store.empty)).run {} "delete" .none
  rw [hPut] at hReachable ⊢
  have hFinds := hReachable.finds_every_document
    ⟨"users//a\"b", [("age", .null)]⟩ List.mem_cons_self
  rw [hText, hFinds.read rfl]
  rfl

end Store

end DocQuery
