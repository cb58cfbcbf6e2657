import DocQuery.Execution.Basic
import DocQuery.Proofs.Execution.Access
import DocQuery.Proofs.Store.Ranking
import DocQuery.Proofs.Text.Trim
import Mathlib.Data.List.Nodup

/-! Writing to documents one after the other. Every write is to a document of
its own, so each finds the fields that were there before the first; one that
fails changes nothing and keeps none of the others from taking place. -/
namespace DocQuery

namespace Documents

variable {documents : Documents} {path : String} {fields : Fields}

theorem nodup_paths (documents : Documents) : (documents.toList.map Document.path).Nodup := by
  rw [List.Nodup, List.pairwise_map]
  exact documents.paths_distinct

theorem mem_of_get? (h : documents.get? path = some fields) :
    ⟨path, fields⟩ ∈ documents.toList := by
  obtain ⟨document, hFind, rfl⟩ := Option.map_eq_some_iff.mp h
  have hPath : document.path = path := by simpa using List.find?_some hFind
  subst hPath
  exact List.mem_of_find?_eq_some hFind

/-- Every stored document is found at its path. -/
theorem get?_of_mem {document : Document} (h : document ∈ documents.toList) :
    documents.get? document.path = some document.fields := by
  cases hGet : documents.get? document.path with
  | none =>
      rw [get?, Option.map_eq_none_iff, List.find?_eq_none] at hGet
      simpa using hGet document h
  | some fields =>
      have hSame := List.inj_on_of_nodup_map documents.nodup_paths (mem_of_get? hGet) h rfl
      rw [← hSame]

theorem mem_put {document : Document} (h : document ∈ (documents.put path fields).toList) :
    document.path = path ∨ document ∈ documents.toList := by
  rcases mem_putInOrder h with rfl | hOld
  · exact Or.inl rfl
  · exact Or.inr hOld

/-- Putting a document where one stands replaces that one and moves none. -/
theorem putInOrder_eq_map {document old : Document} {documents : List Document}
    (hOrder : documents.Pairwise fun a b => a.path < b.path) (hOld : old ∈ documents)
    (hPath : old.path = document.path) :
    putInOrder document documents = documents.map fun other =>
      if other.path = document.path then document else other := by
  induction documents with
  | nil => cases hOld
  | cons first rest ih =>
      obtain ⟨hFirst, hRest⟩ := List.pairwise_cons.mp hOrder
      rw [putInOrder, List.map_cons]
      rcases List.mem_cons.mp hOld with rfl | hLater
      · have hOthers : rest.map (fun other =>
            if other.path = document.path then document else other) = rest := by
          refine (List.map_congr_left fun other hOther => ?_).trans (List.map_id rest)
          have hAfter : document.path < other.path := hPath ▸ hFirst other hOther
          rw [if_neg (Std.ne_of_lt hAfter).symm, id]
        rw [if_neg (hPath ▸ String.lt_irrefl _), if_pos hPath.symm, if_pos hPath, hOthers]
      · have hBefore : first.path < document.path := hPath ▸ hFirst old hLater
        rw [if_neg (String.lt_asymm hBefore), if_neg (Std.ne_of_lt hBefore).symm,
          if_neg (Std.ne_of_lt hBefore), ih hRest hLater]

/-- In place of a document that is there, nothing else moves. -/
theorem toList_put (h : documents.get? path = some fields) (others : Fields) :
    (documents.put path others).toList = documents.toList.map fun document =>
      if document.path = path then ⟨path, others⟩ else document :=
  putInOrder_eq_map documents.ascending (mem_of_get? h) rfl

/-- What is found at a path are the fields of the document there. -/
theorem get?_eq_some_iff : documents.get? path = some fields ↔ ⟨path, fields⟩ ∈ documents.toList :=
  ⟨mem_of_get?, get?_of_mem⟩

/-- Putting a document where none stands adds it. -/
theorem putInOrder_perm {document : Document} {documents : List Document}
    (h : ∀ other ∈ documents, other.path ≠ document.path) :
    (putInOrder document documents).Perm (document :: documents) := by
  induction documents with
  | nil => exact .refl _
  | cons first rest ih =>
      obtain ⟨hFirst, hRest⟩ := List.forall_mem_cons.mp h
      rw [putInOrder]
      split
      · exact .refl _
      · rw [if_neg hFirst.symm]
        exact ((ih hRest).cons first).trans (.swap document first rest)

/-- At a path where there is no document, nothing is replaced. -/
theorem perm_put (h : documents.get? path = none) (fields : Fields) :
    (documents.put path fields).toList.Perm (⟨path, fields⟩ :: documents.toList) := by
  apply putInOrder_perm
  intro other hOther hPath
  have hGet := get?_of_mem hOther
  rw [hPath, h] at hGet
  cases hGet

theorem get?_put_self (h : documents.get? path = none) (fields : Fields) :
    (documents.put path fields).get? path = some fields := by
  rw [get?_eq_some_iff, (perm_put h fields).mem_iff]
  exact List.mem_cons_self

/-- Documents at other paths are found as before. -/
theorem get?_put_of_ne (h : documents.get? path = none) (fields : Fields) {other : String}
    (hOther : other ≠ path) : (documents.put path fields).get? other = documents.get? other := by
  apply Option.ext
  intro found
  rw [get?_eq_some_iff, get?_eq_some_iff, (perm_put h fields).mem_iff, List.mem_cons]
  constructor
  · rintro (hSame | hOld)
    · exact absurd (congrArg Document.path hSame) hOther
    · exact hOld
  · exact Or.inr

end Documents

/-- What becomes of documents when those at some of the paths change: each keeps
its place, and one for which there is no change is gone. -/
def rewritten (change : Fields → Option Fields) (paths : List String) (documents : List Document) :
    List Document :=
  documents.filterMap fun document =>
    if document.path ∈ paths then (change document.fields).map (Document.mk document.path)
    else some document

section Rewritten

variable {change : Fields → Option Fields} {paths : List String} {documents : List Document}

theorem rewritten_nil (change : Fields → Option Fields) (documents : List Document) :
    rewritten change [] documents = documents := by
  simp [rewritten]

theorem mem_rewritten {document : Document} (h : document ∈ documents)
    (hPath : document.path ∉ paths) : document ∈ rewritten change paths documents := by
  apply List.mem_filterMap.mpr
  exact ⟨document, h, if_neg hPath⟩

/-- Changes at one path and then at others are changes at all of them. -/
theorem rewritten_rewritten {path : String} (hPath : path ∉ paths) (documents : List Document) :
    rewritten change paths (rewritten change [path] documents) =
      rewritten change (path :: paths) documents := by
  rw [rewritten, rewritten, rewritten, List.filterMap_filterMap]
  congr 1
  funext document
  by_cases hHere : document.path = path
  · cases change document.fields with
    | none => simp [hHere]
    | some fields => simp [hHere, hPath]
  · simp [hHere]

theorem rewritten_none (paths : List String) (documents : List Document) :
    rewritten (fun _ => none) paths documents =
      documents.filter fun document => document.path ∉ paths := by
  rw [rewritten, ← List.filterMap_eq_filter]
  congr 1
  funext document
  by_cases hPath : document.path ∈ paths
  · simp [hPath, Option.guard]
  · simp [hPath, Option.guard]

end Rewritten

namespace Store

/-- One store is another with documents changed, and writes to it fail as
before. -/
structure Rewrites (change : Fields → Option Fields) (paths : List String) (store finish : Store) :
    Prop where
  documents : finish.documents.toList = rewritten change paths store.documents.toList
  failing : finish.failing = store.failing
  offline : finish.offline = store.offline

variable {change : Fields → Option Fields} {paths : List String} {store middle finish : Store}

theorem Rewrites.unchanged (change : Fields → Option Fields) (store : Store) (calls : Calls)
    (history : List Fetched) : Rewrites change [] store { store with calls, history } :=
  ⟨(rewritten_nil change _).symm, rfl, rfl⟩

theorem Rewrites.nil_trans (h : Rewrites change [] store middle)
    (hNext : Rewrites change paths middle finish) : Rewrites change paths store finish := by
  constructor
  · rw [hNext.documents, h.documents, rewritten_nil]
  · exact hNext.failing.trans h.failing
  · exact hNext.offline.trans h.offline

/-- Rewriting at one path and then at others is rewriting at all of them. -/
theorem Rewrites.cons_trans {path : String} (h : Rewrites change [path] store middle)
    (hNext : Rewrites change paths middle finish) (hPath : path ∉ paths) :
    Rewrites change (path :: paths) store finish := by
  constructor
  · rw [hNext.documents, h.documents, rewritten_rewritten hPath]
  · exact hNext.failing.trans h.failing
  · exact hNext.offline.trans h.offline

theorem leads_requireWritable (store : Store) {path : String} (hOnline : store.offline = false)
    (hFailing : store.failing.contains path = false) :
    Leads (Store.requireWritable path) store (.ok ()) store := by
  refine (leads_requireOnline store hOnline).bind ((leads_get store).bind ?_)
  rw [hFailing]
  exact leads_pure () store

/-- A path at which the store fails cannot be written. -/
theorem leads_requireWritable_of_failing (store : Store) {path : String}
    (hOnline : store.offline = false) (hFailing : store.failing.contains path = true) :
    Leads (Store.requireWritable path) store (.error (.unavailable (.write path))) store := by
  refine (leads_requireOnline store hOnline).bind ((leads_get store).bind ?_)
  rw [hFailing]
  exact leads_throw _ store

/-- An update of a stored document merges the patch into its fields. -/
theorem leads_update (store : Store) {path : String} {fields : Fields}
    (hOnline : store.offline = false) (hTrimmed : Path.Trimmed path)
    (hWritable : store.failing.contains path = false)
    (hGet : store.documents.get? path = some fields) (patch : Fields) :
    Leads (Store.update path patch) store (.ok ())
      { store.counted (fun calls => { calls with updates := calls.updates + 1 }) with
        documents := store.documents.put path (fields.merge patch) } := by
  rw [Store.update, Path.trim_eq_self hTrimmed]
  refine (leads_count store _).bind ((leads_requireWritable (store.counted _) hOnline
    hWritable).bind ((leads_get _).bind ?_))
  rw [counted, hGet]
  exact leads_modify _ _

/-- A delete removes the document, and is no error where there is none. -/
theorem leads_delete (store : Store) {path : String} (hOnline : store.offline = false)
    (hTrimmed : Path.Trimmed path) (hWritable : store.failing.contains path = false) :
    Leads (Store.delete path) store (.ok ())
      { store.counted (fun calls => { calls with deletes := calls.deletes + 1 }) with
        documents := store.documents.remove path } := by
  rw [Store.delete, Path.trim_eq_self hTrimmed]
  exact (leads_count store _).bind ((leads_requireWritable (store.counted _) hOnline
    hWritable).bind (leads_modify _ _))

/-- How a write acts on a document that is there: if writes to its path fail
nothing changes, else its fields change and no other document does. -/
structure WritesAs (write : String → StoreM Unit) (change : Fields → Option Fields) : Prop where
  of_failing : ∀ (store : Store) (path : String), store.offline = false → Path.Trimmed path →
    store.failing.contains path = true →
    ∃ finish, Leads (write path) store (.error (.unavailable (.write path))) finish ∧
      Rewrites change [] store finish
  of_stored : ∀ (store : Store) (document : Document), store.offline = false →
    Path.Trimmed document.path → document ∈ store.documents.toList →
    store.failing.contains document.path = false →
    ∃ finish, Leads (write document.path) store (.ok ()) finish ∧
      Rewrites change [document.path] store finish

theorem writesAs_update (patch : Fields) :
    WritesAs (fun path => Store.update path patch) fun fields => some (fields.merge patch) := by
  constructor
  · intro store path hOnline hTrimmed hFailing
    rw [Store.update, Path.trim_eq_self hTrimmed]
    exact ⟨_, (leads_count store _).bind
      (leads_requireWritable_of_failing (store.counted _) hOnline hFailing).bind_error,
      Rewrites.unchanged _ store _ _⟩
  · intro store document hOnline hTrimmed hStored hWritable
    have hGet := Documents.get?_of_mem hStored
    refine ⟨_, leads_update store hOnline hTrimmed hWritable hGet patch, ?_, rfl, rfl⟩
    change (store.documents.put document.path _).toList = _
    rw [Documents.toList_put hGet, rewritten, ← List.filterMap_eq_map]
    apply List.filterMap_congr
    intro other hOther
    by_cases hPath : other.path = document.path
    · have hSame := List.inj_on_of_nodup_map store.documents.nodup_paths hOther hStored hPath
      simp [hSame]
    · simp [hPath]

theorem writesAs_delete : WritesAs Store.delete fun _ => none := by
  constructor
  · intro store path hOnline hTrimmed hFailing
    rw [Store.delete, Path.trim_eq_self hTrimmed]
    exact ⟨_, (leads_count store _).bind
      (leads_requireWritable_of_failing (store.counted _) hOnline hFailing).bind_error,
      Rewrites.unchanged _ store _ _⟩
  · intro store document hOnline hTrimmed hStored hWritable
    refine ⟨_, leads_delete store hOnline hTrimmed hWritable, ?_, rfl, rfl⟩
    rw [rewritten_none]
    apply List.filter_congr
    intro other _
    apply Bool.eq_iff_iff.mpr
    simp

/-- The paths of documents to which writes fail. -/
def failedPaths (store : Store) (documents : List Document) : List String :=
  (documents.map Document.path).filter fun path => store.failing.contains path

/-- The paths of documents to which writes do not fail. -/
def writtenPaths (store : Store) (documents : List Document) : List String :=
  (documents.map Document.path).filter fun path => !store.failing.contains path

theorem paths_cons_of_failing {document : Document}
    (h : store.failing.contains document.path = true) (rest : List Document) :
    store.writtenPaths (document :: rest) = store.writtenPaths rest ∧
      store.failedPaths (document :: rest) = document.path :: store.failedPaths rest := by
  rw [writtenPaths, failedPaths, List.map_cons]
  exact ⟨List.filter_cons_of_neg (by simp only [h]; decide), List.filter_cons_of_pos h⟩

theorem paths_cons_of_writable {document : Document}
    (h : store.failing.contains document.path = false) (rest : List Document) :
    store.writtenPaths (document :: rest) = document.path :: store.writtenPaths rest ∧
      store.failedPaths (document :: rest) = store.failedPaths rest := by
  rw [writtenPaths, failedPaths, List.map_cons]
  exact ⟨List.filter_cons_of_pos (by simp only [h]; decide),
    List.filter_cons_of_neg (by simp only [h]; decide)⟩

/-- Rewriting makes no difference to where the store can write. -/
theorem Rewrites.paths_eq (h : Rewrites change paths store middle) (documents : List Document) :
    middle.writtenPaths documents = store.writtenPaths documents ∧
      middle.failedPaths documents = store.failedPaths documents := by
  rw [writtenPaths, failedPaths, h.failing]
  exact ⟨rfl, rfl⟩

theorem not_mem_writtenPaths {path : String} {documents : List Document}
    (h : path ∉ documents.map Document.path) : path ∉ store.writtenPaths documents :=
  fun hPath => h (List.mem_filter.mp hPath).1

/-- Each document is written or has failed. -/
theorem length_writtenPaths (store : Store) (documents : List Document) :
    (store.writtenPaths documents).length =
      documents.length - (store.failedPaths documents).length := by
  have hSplit := List.length_eq_length_filter_add (l := documents.map Document.path)
    fun path => store.failing.contains path
  rw [List.length_map] at hSplit
  rw [writtenPaths, failedPaths]
  omega

theorem writtenPaths_eq_map {documents : List Document} (h : store.failedPaths documents = []) :
    store.writtenPaths documents = documents.map Document.path := by
  apply List.filter_eq_self.mpr
  intro path hPath
  simpa using List.filter_eq_nil_iff.mp h path hPath

/-- Documents are written one by one, and what fails is put on the list. -/
theorem run_writeEach_cons {write : String → StoreM Unit} {document : Document}
    {rest : List Document} {result : Except StoreError Unit} {count : Nat} {failed : List String}
    (hWrite : Leads (write document.path) store result middle)
    (hRest : (writeEach write rest).run middle = ((count, failed), finish)) :
    (writeEach write (document :: rest)).run store =
      (match result with
        | .ok () => (count + 1, failed)
        | .error _ => (count, document.path :: failed), finish) := by
  unfold Leads at hWrite
  rw [writeEach, StateT.run_bind, hWrite]
  change StateT.run (writeEach write rest >>= _) middle = _
  rw [StateT.run_bind, hRest]
  cases result with
  | ok _ => rfl
  | error _ => rfl

/-- Writing to documents that are all there changes those whose path does not
fail, and reports the others in their order. The induction is on the documents:
a write leaves the later ones as they are, since no two have the same path. -/
theorem WritesAs.run_writeEach {write : String → StoreM Unit} (h : WritesAs write change)
    (documents : List Document) {store : Store} (hOnline : store.offline = false)
    (hStored : ∀ document ∈ documents, document ∈ store.documents.toList)
    (hTrimmed : ∀ document ∈ documents, Path.Trimmed document.path)
    (hPaths : (documents.map Document.path).Nodup) :
    ∃ finish, (writeEach write documents).run store =
      (((store.writtenPaths documents).length, store.failedPaths documents), finish) ∧
      Rewrites change (store.writtenPaths documents) store finish := by
  induction documents generalizing store with
  | nil => exact ⟨store, rfl, Rewrites.unchanged change store store.calls store.history⟩
  | cons document rest ih =>
      obtain ⟨hFirst, hRest⟩ := List.nodup_cons.mp hPaths
      have hHere := hStored document List.mem_cons_self
      have hTrim := hTrimmed document List.mem_cons_self
      have hLater : ∀ other ∈ rest, Path.Trimmed other.path :=
        fun other hOther => hTrimmed other (List.mem_cons_of_mem _ hOther)
      cases hFailing : store.failing.contains document.path with
      | true =>
          obtain ⟨middle, hWrite, hSame⟩ := h.of_failing store _ hOnline hTrim hFailing
          have hKept : middle.documents.toList = store.documents.toList :=
            hSame.documents.trans (rewritten_nil _ _)
          obtain ⟨finish, hRun, hRewrites⟩ := ih (hSame.offline.trans hOnline)
            (fun other hOther => hKept ▸ hStored other (List.mem_cons_of_mem _ hOther)) hLater hRest
          rw [(hSame.paths_eq rest).1] at hRun hRewrites
          rw [(hSame.paths_eq rest).2] at hRun
          rw [(paths_cons_of_failing hFailing rest).1, (paths_cons_of_failing hFailing rest).2]
          exact ⟨finish, run_writeEach_cons hWrite hRun, hSame.nil_trans hRewrites⟩
      | false =>
          obtain ⟨middle, hWrite, hChanged⟩ := h.of_stored store _ hOnline hTrim hHere hFailing
          have hKept : ∀ other ∈ rest, other ∈ middle.documents.toList := by
            intro other hOther
            rw [hChanged.documents]
            apply mem_rewritten (hStored other (List.mem_cons_of_mem _ hOther))
            intro hPath
            apply hFirst
            rw [← List.mem_singleton.mp hPath]
            exact List.mem_map_of_mem hOther
          obtain ⟨finish, hRun, hRewrites⟩ := ih (hChanged.offline.trans hOnline) hKept hLater hRest
          rw [(hChanged.paths_eq rest).1] at hRun hRewrites
          rw [(hChanged.paths_eq rest).2] at hRun
          rw [(paths_cons_of_writable hFailing rest).1, (paths_cons_of_writable hFailing rest).2]
          exact ⟨finish, run_writeEach_cons hWrite hRun,
            hChanged.cons_trans hRewrites (not_mem_writtenPaths hFirst)⟩

end Store

end DocQuery
