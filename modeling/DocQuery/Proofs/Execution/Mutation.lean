import DocQuery.Proofs.Execution.Reachable
import DocQuery.Proofs.Selection.Picks

/-! Updates and deletes act on what a select with the same subject and clauses
shows. The documents are selected before the first write, each write is to one
of them, and a delete that has removed all of them leaves nothing that the same
select would show. -/
namespace DocQuery

/-- What it means that a statement writes to the documents of a selection. -/
structure Engine.WritesTo (selection : Access (List Document)) (change : Fields → Option Fields)
    (statement : Run Outcome) (world : World) : Prop where
  /-- Without a selection the statement fails in the same way, and nothing
  changes. -/
  fails : ∀ fault, resultOf selection world.store = .error fault →
    resultOf statement world = .error fault ∧
      (finishOf statement world).store.documents = world.store.documents
  /-- What is selected is there, and each document once. -/
  stored : ∀ documents, resultOf selection world.store = .ok documents →
    (∀ document ∈ documents, document ∈ world.store.documents.toList) ∧
      (documents.map Document.path).Nodup
  /-- The statement succeeds and tells which writes have failed, in the order of
  the selection. -/
  reports : ∀ documents, resultOf selection world.store = .ok documents →
    resultOf statement world = .ok (.written
      (documents.length - (world.store.failedPaths documents).length)
      (world.store.failedPaths documents))
  /-- The documents change to which writes do not fail, and no others. -/
  writes : ∀ documents, resultOf selection world.store = .ok documents →
    Store.Rewrites change (world.store.writtenPaths documents) world.store
      (finishOf statement world).store

namespace Engine

section Writes

variable (engine : Engine) (write : String → StoreM Unit) {world : World} {q : Select}
  {middle finish : Store}

theorem leads_writeSelected_of_error {fault : QueryError}
    (h : Leads (q.selection engine.maximum) world.store (.error fault) finish) :
    Leads (engine.writeSelected q.plan write) world (.error fault)
      { world with store := finish } := by
  rw [writeSelected, ← bind_assoc]
  exact h.bind_error.onStore

/-- A statement that writes reports how many documents it wrote and where it
failed. -/
theorem leads_writeSelected {documents : List Document} {count : Nat} {failed : List String}
    (h : Leads (q.selection engine.maximum) world.store (.ok documents) middle)
    (hRun : (Store.writeEach write documents).run middle = ((count, failed), finish)) :
    Leads (engine.writeSelected q.plan write) world (.ok (.written count failed))
      { world with store := finish } := by
  have hEach : Leads (liftM (Store.writeEach write documents) : Access (Nat × List String)) middle
      (.ok (count, failed)) finish := by
    change StateT.run (Except.ok <$> Store.writeEach write documents) middle = _
    rw [StateT.run_map, hRun]
    rfl
  rw [writeSelected, ← bind_assoc]
  refine Leads.onStore (h.bind (hEach.bind ?_))
  exact leads_pure (Outcome.written count failed) finish

/-- The selection leaves the store as it was but for its record of calls, so the
writes find what was selected. -/
theorem run_selected {write : String → StoreM Unit} {change : Fields → Option Fields}
    (hWrite : Store.WritesAs write change) (hAddressed : world.store.WellAddressed)
    {subject : Subject} {clauses : List Clause} {documents : List Document}
    (h : resultOf ((Select.every subject clauses).selection engine.maximum) world.store =
      .ok documents) :
    ∃ finish, Leads (engine.writeSelected (Select.every subject clauses).plan write) world
      (.ok (.written (documents.length - (world.store.failedPaths documents).length)
        (world.store.failedPaths documents))) { world with store := finish } ∧
      Store.Rewrites change (world.store.writtenPaths documents) world.store finish := by
  have hSelection := leads_of ((Select.every subject clauses).selection engine.maximum) world.store
  rw [h] at hSelection
  obtain ⟨fetched, picked, hPicks⟩ := Select.exists_picks h
  obtain ⟨hOnline, _, hPaths, hPicked⟩ := hPicks.of_ok h
  have hSame : Store.Rewrites change [] world.store
      (finishOf ((Select.every subject clauses).selection engine.maximum) world.store) :=
    (Select.every subject clauses).keeps_selection
      (fun _ _ _ h => ⟨h.documents, h.failing, h.offline⟩) engine.maximum world.store
      (Store.Rewrites.unchanged change world.store world.store.calls world.store.history)
  have hThere := hSame.documents.trans (rewritten_nil _ _)
  have hStored : ∀ document ∈ documents, document ∈ world.store.documents.toList :=
    fun document hDocument => ((hPicked document).mp hDocument).1
  obtain ⟨finish, hRun, hRewrites⟩ := hWrite.run_writeEach documents
    (hSame.offline.trans hOnline)
    (fun document hDocument => hThere ▸ hStored document hDocument)
    (fun document hDocument => (hAddressed document (hStored document hDocument)).1) hPaths
  rw [(hSame.paths_eq documents).1] at hRun hRewrites
  rw [(hSame.paths_eq documents).2, Store.length_writtenPaths] at hRun
  exact ⟨finish, engine.leads_writeSelected write hSelection hRun, hSame.nil_trans hRewrites⟩

/-- A statement that writes does so exactly to what its selection finds. -/
theorem writesTo_writeSelected {write : String → StoreM Unit} {change : Fields → Option Fields}
    (hWrite : Store.WritesAs write change) (hAddressed : world.store.WellAddressed)
    (subject : Subject) (clauses : List Clause) :
    WritesTo ((Select.every subject clauses).selection engine.maximum) change
      (engine.writeSelected (Select.every subject clauses).plan write) world := by
  constructor
  · intro fault hError
    have hSelection :=
      leads_of ((Select.every subject clauses).selection engine.maximum) world.store
    rw [hError] at hSelection
    have hRun := engine.leads_writeSelected_of_error write hSelection
    rw [hRun.resultOf_eq, hRun.finishOf_eq]
    have hKeeps := (Select.every subject clauses).keeps_selection
      (P := fun store => store.documents = world.store.documents) (fun _ _ _ h => h) engine.maximum
    exact ⟨rfl, hKeeps world.store rfl⟩
  · intro documents hOk
    obtain ⟨fetched, picked, hPicks⟩ := Select.exists_picks hOk
    obtain ⟨_, _, hPaths, hPicked⟩ := hPicks.of_ok hOk
    exact ⟨fun document hDocument => ((hPicked document).mp hDocument).1, hPaths⟩
  · intro documents hOk
    obtain ⟨finish, hRun, _⟩ := engine.run_selected hWrite hAddressed hOk
    exact hRun.resultOf_eq
  · intro documents hOk
    obtain ⟨finish, hRun, hRewrites⟩ := engine.run_selected hWrite hAddressed hOk
    rw [hRun.finishOf_eq]
    exact hRewrites

end Writes

/-- A delete that failed nowhere finds nothing when it is repeated. -/
theorem delete_again (engine : Engine) (q : Delete) {world : World}
    (hAddressed : world.store.WellAddressed) {count : Nat}
    (h : resultOf (engine.delete q) world = .ok (.written count [])) :
    resultOf (engine.delete q) (finishOf (engine.delete q) world) = .ok (.written 0 []) := by
  have hFirst := engine.writesTo_writeSelected Store.writesAs_delete hAddressed q.subject q.clauses
  change WritesTo _ _ (engine.delete q) world at hFirst
  cases hSelection : resultOf ((Select.every q.subject q.clauses).selection engine.maximum)
      world.store with
  | error fault =>
      rw [(hFirst.fails fault hSelection).1] at h
      cases h
  | ok documents =>
      have hResult := hFirst.reports documents hSelection
      have hRewrites := hFirst.writes documents hSelection
      obtain ⟨_, hNone⟩ := Outcome.written.inj (Except.ok.inj (hResult.symm.trans h))
      have hLeft := hRewrites.documents
      rw [Store.writtenPaths_eq_map hNone, rewritten_none] at hLeft
      have hStill : (finishOf (engine.delete q) world).store.WellAddressed := by
        intro document hDocument
        rw [hLeft] at hDocument
        exact hAddressed document (List.mem_of_mem_filter hDocument)
      have hSecond := engine.writesTo_writeSelected Store.writesAs_delete hStill q.subject q.clauses
      obtain ⟨fetched, picked, hPicks⟩ := Select.exists_picks hSelection
      exact hSecond.reports [] (hPicks.resultOf_rest hSelection hRewrites.offline hLeft)

/-- Updates and deletes write to what a select with their subject and clauses
shows before they start, also where an update changes what its clauses ask for.
A delete that has not failed anywhere finds nothing when it is run again. -/
theorem writes_touch_selection (engine : Engine) (world : World) (h : world.store.Reachable) :
    (∀ q : Update, WritesTo ((Select.every q.subject q.clauses).selection engine.maximum)
      (fun fields => some (fields.merge (patchOf q.setters))) (engine.update q) world) ∧
    ∀ q : Delete, WritesTo ((Select.every q.subject q.clauses).selection engine.maximum)
        (fun _ => none) (engine.delete q) world ∧
      ∀ count, resultOf (engine.delete q) world = .ok (.written count []) →
        resultOf (engine.delete q) (finishOf (engine.delete q) world) = .ok (.written 0 []) := by
  refine ⟨fun q => ?_, fun q => ⟨?_, fun count hCount => ?_⟩⟩
  · exact engine.writesTo_writeSelected
      (Store.writesAs_update _) h.wellAddressed q.subject q.clauses
  · exact engine.writesTo_writeSelected Store.writesAs_delete h.wellAddressed q.subject q.clauses
  · exact engine.delete_again q h.wellAddressed hCount

end Engine

theorem Store.reachable_tied : Store.Reachable Store.tied := by
  have hFirst := (Reachable.empty IdSource.counting).put
    (by decide +kernel : Path.Trimmed "users/b")
    (by decide +kernel) [("age", .number (.integer 7))]
  exact hFirst.put (by decide +kernel : Path.Trimmed "users/a") (by decide +kernel)
    [("age", .number (.real (Double.ofInt 7)))]

theorem Engine.writes_touch_selection_tied :
    resultOf (Engine.update { maximum := 5 } ⟨⟨"users", .collection⟩, [], [⟨"age", .null⟩]⟩)
      ⟨Store.tied.failWritesTo "users/a", .none⟩ = .ok (.written 1 ["users/a"]) ∧
    resultOf (Engine.delete { maximum := 5 } ⟨⟨"users", .collection⟩, []⟩) ⟨Store.tied, .none⟩ =
      .ok (.written 2 []) ∧
    resultOf (Engine.delete { maximum := 5 } ⟨⟨"users", .collection⟩, []⟩)
      (finishOf (Engine.delete { maximum := 5 } ⟨⟨"users", .collection⟩, []⟩) ⟨Store.tied, .none⟩) =
        .ok (.written 0 []) := by
  have hTrim : Path.trim "users/a" = "users/a" := by decide +kernel
  have hFailed : (Store.tied.failWritesTo "users/a").failedPaths Store.tied.documents.toList =
      ["users/a"] := by
    rw [Store.failWritesTo, hTrim, Store.toList_tied]
    rfl
  have hUpdate := (writes_touch_selection { maximum := 5 }
    ⟨Store.tied.failWritesTo "users/a", .none⟩ (Store.reachable_tied.step (.failWritesTo _ _))).1
      ⟨⟨"users", .collection⟩, [], [⟨"age", .null⟩]⟩
  have hDelete := (writes_touch_selection { maximum := 5 } ⟨Store.tied, .none⟩
    Store.reachable_tied).2 ⟨⟨"users", .collection⟩, []⟩
  have hSome := hUpdate.reports _ (Store.resultOf_selection_tied
    (Store.tied.failWritesTo "users/a") rfl rfl (Or.inl rfl))
  have hAll := hDelete.1.reports _ (Store.resultOf_selection_tied Store.tied rfl rfl (Or.inl rfl))
  rw [Store.toList_tied] at hAll
  refine ⟨?_, hAll, hDelete.2 2 hAll⟩
  rw [hSome, hFailed, Store.toList_tied]
  rfl

end DocQuery
