import DocQuery.Proofs.Execution.Addresses
import DocQuery.Proofs.Execution.Checks
import DocQuery.Proofs.Execution.Groups

/-! What a show lists. The names are cut out of the paths of the documents, and
since collections and documents take turns along a path, the name that follows a
document is always one of a collection. A show below many documents lists what a
show at each of them would, for the documents that a select finds. -/
namespace DocQuery

/-- Names in ascending order, each once, and which names they are. -/
structure Listing (names : List String) (Listed : String → Prop) : Prop where
  ascending : names.Pairwise (· < ·)
  mem_iff (name : String) : name ∈ names ↔ Listed name

theorem Listing.congr {names : List String} {Listed Other : String → Prop}
    (h : Listing names Listed) (hSame : ∀ name, Listed name ↔ Other name) : Listing names Other :=
  ⟨h.ascending, fun name => (h.mem_iff name).trans (hSame name)⟩

/-- A document below another one has its path through the name of the
collection. -/
theorem Path.child_child (path name below : String) :
    child path (child name below) = path ++ "/" ++ name ++ "/" ++ below := by
  simp only [child, String.append_assoc]

namespace Store

section Names

/-- Inserting a name adds it and nothing else. -/
theorem mem_insertName {name other : String} {names : List String} :
    other ∈ insertName name names ↔ other = name ∨ other ∈ names := by
  induction names with
  | nil => simp [insertName]
  | cons first rest ih =>
      rw [insertName]
      split
      · exact List.mem_cons
      · split
        · rename_i hSame
          subst hSame
          simp
        · rw [List.mem_cons, List.mem_cons, ih]
          exact or_left_comm

/-- Names stay strictly ascending, so no name is listed twice. -/
theorem pairwise_insertName {name : String} {names : List String}
    (h : names.Pairwise (· < ·)) : (insertName name names).Pairwise (· < ·) := by
  induction names with
  | nil => exact List.pairwise_singleton _ _
  | cons first rest ih =>
      obtain ⟨hFirst, hRest⟩ := List.pairwise_cons.mp h
      rw [insertName]
      split
      · rename_i hBefore
        refine List.pairwise_cons.mpr ⟨fun other hOther => ?_, h⟩
        rcases List.mem_cons.mp hOther with rfl | hLater
        · exact hBefore
        · exact String.lt_trans hBefore (hFirst other hLater)
      · rename_i hNotBefore
        split
        · exact h
        · rename_i hOther
          have hAfter : first < name :=
            Std.lt_of_le_of_ne (Std.not_lt.mp hNotBefore) (Ne.symm hOther)
          refine List.pairwise_cons.mpr ⟨fun other hIn => ?_, ih hRest⟩
          rcases mem_insertName.mp hIn with rfl | hLater
          · exact hAfter
          · exact hFirst other hLater

/-- Sorting loses no name and adds none. -/
theorem listing_sortNames (names : List String) : Listing (sortNames names) (· ∈ names) := by
  induction names with
  | nil => exact ⟨List.Pairwise.nil, fun _ => Iff.rfl⟩
  | cons name rest ih =>
      refine ⟨pairwise_insertName ih.ascending, fun other => ?_⟩
      rw [sortNames, List.foldr_cons, mem_insertName, List.mem_cons]
      exact or_congr_right (ih.mem_iff other)

/-- What comes after a beginning is the rest of the text. -/
theorem after?_eq_some_iff {beginning text rest : String} :
    after? beginning text = some rest ↔ text = beginning ++ rest := by
  rw [after?]
  constructor
  · intro h
    split at h
    · rename_i hBegins
      obtain ⟨others, hText⟩ := List.isPrefixOf_iff_prefix.mp hBegins
      obtain rfl := Option.some.inj h
      apply String.toList_inj.mp
      rw [String.toList_append, String.toList_ofList, ← hText, List.drop_left]
    · cases h
  · rintro rfl
    rw [if_pos (List.isPrefixOf_iff_prefix.mpr ⟨rest.toList, String.toList_append.symm⟩),
      String.toList_append, List.drop_left, String.ofList_toList]

/-- The names below a beginning are the first segments behind it. -/
theorem listing_namesBelow (documents : List Document) (beginning : String) :
    Listing (namesBelow documents beginning) fun name => name ≠ "" ∧ ∃ document ∈ documents,
      ∃ rest, document.path = beginning ++ rest ∧ (Path.segments rest).head? = some name := by
  refine (listing_sortNames _).congr fun name => ?_
  simp only [List.mem_filter, List.mem_filterMap, Option.bind_eq_some_iff, after?_eq_some_iff,
    decide_eq_true_eq]
  exact and_comm

end Names

variable {store : Store} {path name : String}

/-- The name is one of a collection of the document at a path: some document is
below it. -/
def HoldsBelow (store : Store) (path name : String) : Prop :=
  '/' ∉ name.toList ∧ ∃ document ∈ store.documents.toList,
    ∃ rest, document.path = path ++ "/" ++ name ++ "/" ++ rest

/-- Where no segment is empty no collection has an empty name. -/
theorem HoldsBelow.name_ne (h : store.HoldsBelow path name) (hFilled : store.NamesFilled) :
    name ≠ "" := by
  obtain ⟨hName, document, hStored, rest, hPath⟩ := h
  have hNames : Path.segments document.path =
      Path.segments path ++ [name] ++ Path.segments rest := by
    rw [hPath, ← Path.segments_child path hName, ← Path.segments_below]
    rfl
  have hSome : document.path ≠ "" := hPath ▸ Path.child_ne_empty (Path.child path name) rest
  rintro rfl
  apply hFilled document hStored hSome
  simp [hNames]

/-- What follows a document is a collection, and no document has its path. -/
theorem HoldsBelow.isCollection (h : store.HoldsBelow path name) (hFilled : store.NamesFilled)
    (hPath : Path.isDocument path = true) : Store.isCollection (Path.child path name) = true := by
  have hOdd := Path.isDocument_child_eq_not path ⟨h.name_ne hFilled, h.1⟩
  simp [Store.isCollection, hOdd, hPath, Path.child_ne_empty path name]

/-- Below a document the store lists its collections and nothing else. A name
that ends a path would put a document at an odd depth. -/
theorem WellAddressed.listing_below (h : store.WellAddressed) (hFilled : store.NamesFilled)
    (hPath : Path.isDocument path = true) :
    Listing (namesBelow store.documents.toList (path ++ "/")) (store.HoldsBelow path) := by
  refine (listing_namesBelow _ _).congr fun name => ?_
  constructor
  · rintro ⟨hSome, document, hStored, rest, hDocument, hFirst⟩
    obtain ⟨hName, rfl | ⟨below, rfl⟩⟩ := Path.head?_segments_eq_some_iff.mp hFirst
    · have hOdd : Path.isDocument document.path = false := by
        rw [hDocument]
        exact (Path.isDocument_child_eq_not path ⟨hSome, hName⟩).trans (congrArg not hPath)
      rw [(h document hStored).2] at hOdd
      cases hOdd
    · exact ⟨hName, document, hStored, below, hDocument.trans (Path.child_child path name below)⟩
  · intro hHolds
    have hSome := hHolds.name_ne hFilled
    obtain ⟨hName, document, hStored, below, hDocument⟩ := hHolds
    refine ⟨hSome, document, hStored, Path.child name below, ?_, ?_⟩
    · exact hDocument.trans (Path.child_child path name below).symm
    · exact Path.head?_segments_eq_some_iff.mpr ⟨hName, Or.inr ⟨below, rfl⟩⟩

/-- At the root the store lists the names that paths begin with. -/
theorem NamesFilled.listing_root (h : store.NamesFilled) :
    Listing (namesBelow store.documents.toList "") fun name =>
      ∃ document ∈ store.documents.toList, document.path ≠ "" ∧
        (Path.segments document.path).head? = some name := by
  refine (listing_namesBelow _ _).congr fun name => ?_
  simp only [String.empty_append, exists_eq_left']
  constructor
  · rintro ⟨hSome, document, hStored, hFirst⟩
    refine ⟨document, hStored, ?_, hFirst⟩
    intro hEmpty
    rw [hEmpty] at hFirst
    exact hSome (Option.some.inj hFirst).symm
  · rintro ⟨document, hStored, hPath, hFirst⟩
    refine ⟨?_, document, hStored, hFirst⟩
    rintro rfl
    exact h document hStored hPath (List.mem_of_mem_head? hFirst)

/-- What follows any of the documents in the paths that are stored. -/
def namesBelowAll (stored : Documents) (documents : List Document) : List String :=
  sortNames (documents.map fun document =>
    namesBelow stored.toList (Path.trim document.path ++ "/")).flatten

section Calls

variable (h : store.offline = false)
include h

/-- Without a parent the collections of the store are listed. -/
theorem leads_listCollections_root :
    Leads (Store.listCollections none) store (.ok (namesBelow store.documents.toList "")) store :=
  (leads_requireOnline store h).bind ((leads_get store).bind (leads_pure _ store))

theorem leads_listCollections_at (path : String) :
    Leads (Store.listCollections (some path)) store
      (.ok (namesBelow store.documents.toList (Path.trim path ++ "/"))) store :=
  (leads_requireOnline store h).bind ((leads_get store).bind (leads_pure _ store))

/-- The store is asked for each document in turn. -/
theorem leads_collectionsBelow (documents : List Document) :
    Leads (Store.collectionsBelow documents) store
      (.ok (namesBelowAll store.documents documents)) store := by
  have hEach : Leads (documents.mapM fun document => listCollections (some document.path)) store
      (.ok (documents.map fun document =>
        namesBelow store.documents.toList (Path.trim document.path ++ "/"))) store := by
    induction documents with
    | nil => exact leads_pure [] store
    | cons document rest ih =>
        rw [List.mapM_cons]
        exact (leads_listCollections_at h document.path).bind (ih.bind (leads_pure _ store))
  exact hEach.bind (leads_pure _ store)

end Calls

/-- Below several documents, the names below any of them are listed. -/
theorem WellAddressed.listing_belowAll (h : store.WellAddressed) (hFilled : store.NamesFilled)
    {documents : List Document} (hStored : documents ⊆ store.documents.toList) :
    Listing (namesBelowAll store.documents documents) fun name =>
      ∃ document ∈ documents, store.HoldsBelow document.path name := by
  refine (listing_sortNames _).congr fun name => ?_
  simp only [List.mem_flatten, List.mem_map, exists_exists_and_eq_and]
  refine exists_congr fun document => and_congr_right fun hDocument => ?_
  obtain ⟨hTrimmed, hEven⟩ := h document (hStored hDocument)
  rw [Path.trim_eq_self hTrimmed]
  exact (h.listing_below hFilled hEven).mem_iff name

end Store

section Shows

variable {subject : Subject} {plan : Plan} {documents : List Document}

/-- A plan for everything of a subject finds stored documents, and a select
shows all of them. -/
theorem Engine.select_every_of_fetch (engine : Engine) (world : World)
    (hKind : subject.kind ≠ .document) (hMake : Plan.make subject [] [] none none = .ok plan)
    (hFetch : resultOf (plan.fetch engine.maximum) world.store = .ok documents) :
    documents ⊆ world.store.documents.toList ∧
      resultOf (engine.execute (.select (.every subject []))) world =
        .ok (.documents (.array (documents.map Document.toValue))) := by
  obtain ⟨rfl, hSupported⟩ := Plan.eq_forMany_of_make hKind hMake
  obtain ⟨scope, filters, _, _, hRequest⟩ := Plan.exists_request [] hKind hSupported
  have hPicks := Plan.picks_fetch_unbounded (hRequest none none) rfl rfl rfl engine.maximum
  refine ⟨fun document hDocument => (((hPicks.of_ok hFetch).2.2.2 document).mp hDocument).1, ?_⟩
  obtain ⟨finish, hSelect⟩ : ∃ finish, Leads ((Select.every subject []).selection engine.maximum)
      world.store (.ok documents) finish := by
    have hLeads := leads_of ((Plan.forMany subject [] [] none none).fetch engine.maximum)
      world.store
    rw [hFetch] at hLeads
    have hPlanned : Leads ((Plan.forMany subject [] [] none none).select engine.maximum) world.store
        (.ok (sortDocuments [] (filterDocuments [] documents))) _ := Plan.leads_select rfl hLeads
    rw [filterDocuments_nil, sortDocuments_nil] at hPlanned
    exact ⟨_, (leads_planned hMake world.store).bind hPlanned⟩
  exact (engine.leads_select_every hSelect).resultOf_eq

theorem leads_listed {call : StoreM (List String)} {store finish : Store} {names : List String}
    (h : Leads call store (.ok names) finish) :
    Leads (do return Outcome.collections (← Access.call call)) store (.ok (.collections names))
      finish :=
  h.call.bind (leads_pure _ finish)

/-- A show below the documents of a plan lists what is below those that it
fetches; fetching them does not change what is stored. -/
theorem Engine.resultOf_show_below (engine : Engine) (world : World) {q : Show}
    (hTarget : q.target = .ok (.below plan)) (hOnline : world.store.offline = false)
    (hFetch : resultOf (plan.fetch engine.maximum) world.store = .ok documents) :
    resultOf (engine.execute (.show q)) world =
      .ok (.collections (Store.namesBelowAll world.store.documents documents)) := by
  obtain ⟨hDocuments, hStillOnline⟩ := plan.keeps_fetch
    (P := fun store => store.documents = world.store.documents ∧ store.offline = false)
    (fun _ _ _ h => h) engine.maximum world.store ⟨rfl, hOnline⟩
  have hLeads := leads_of (plan.fetch engine.maximum) world.store
  rw [hFetch] at hLeads
  have hNames := leads_listed (Store.leads_collectionsBelow hStillOnline documents)
  rw [hDocuments] at hNames
  rw [execute, showCollections, hTarget, planned_ok_bind]
  exact (hLeads.bind hNames).onStore.resultOf_eq

end Shows

namespace Store

variable {store : Store}

/-- What shows list: at the root, at a document, and below what a select
finds. -/
structure ShowsCollections (store : Store) (engine : Engine) (sink : Sink) : Prop where
  root : ∃ names,
    resultOf (engine.execute (.show ⟨none⟩)) ⟨store, sink⟩ = .ok (.collections names) ∧
      Listing names fun name => ∃ document ∈ store.documents.toList, document.path ≠ "" ∧
        (Path.segments document.path).head? = some name
  /-- No name is that of a document. -/
  document (path : String) : Path.isDocument path = true → ∃ names,
    resultOf (engine.execute (.show ⟨some ⟨path, .document⟩⟩)) ⟨store, sink⟩ =
        .ok (.collections names) ∧
      Listing names (store.HoldsBelow (Path.trim path)) ∧
      ∀ name ∈ names, Store.isCollection (Path.child (Path.trim path) name) = true
  below (subject : Subject) (outcome : Outcome) : subject.kind ≠ .document →
    resultOf (engine.execute (.show ⟨some subject⟩)) ⟨store, sink⟩ = .ok outcome →
    ∃ documents names, outcome = .collections names ∧
      documents ⊆ store.documents.toList ∧
      resultOf (engine.execute (.select (.every subject []))) ⟨store, sink⟩ =
        .ok (.documents (.array (documents.map Document.toValue))) ∧
      Listing names fun name => ∃ document ∈ documents, store.HoldsBelow document.path name

/-- Every store that can be reached, is online and has no empty names in its
paths lists exactly the collections that are there. -/
theorem Reachable.shows_collections (h : store.Reachable) (hFilled : store.NamesFilled)
    (hOnline : store.offline = false) (engine : Engine) (sink : Sink) :
    store.ShowsCollections engine sink where
  root := by
    have hNames := leads_listed (leads_listCollections_root hOnline)
    exact ⟨_, (@Leads.onStore _ _ ⟨store, sink⟩ _ _ hNames).resultOf_eq, hFilled.listing_root⟩
  document path hPath := by
    have hTrim : Path.isDocument (Path.trim path) = true := by
      rw [Path.isDocument, Path.depth_trim]
      exact hPath
    have hListing := h.wellAddressed.listing_below hFilled hTrim
    have hNames := leads_listed (leads_listCollections_at hOnline path)
    refine ⟨_, (@Leads.onStore _ _ ⟨store, sink⟩ _ _ hNames).resultOf_eq, hListing, ?_⟩
    exact fun name hName => ((hListing.mem_iff name).mp hName).isCollection hFilled hTrim
  below subject outcome hKind hOk := by
    obtain ⟨target, hTarget, hRest, _⟩ := planned_bind_eq_ok (onStore_eq_ok hOk).1
    obtain ⟨plan, hMake, rfl⟩ := Show.exists_make_of_target hKind hTarget
    obtain ⟨documents, hFetch, _⟩ := exists_of_bind_eq_ok hRest
    have hShow := engine.resultOf_show_below ⟨store, sink⟩ hTarget hOnline hFetch
    obtain ⟨hStored, hSelect⟩ := engine.select_every_of_fetch ⟨store, sink⟩ hKind hMake hFetch
    exact ⟨documents, _, Except.ok.inj (hOk.symm.trans hShow), hStored, hSelect,
      h.wellAddressed.listing_belowAll hFilled hStored⟩

/-- The posts of a user, and the likes of one who is not stored and whose path
begins like that of the other. -/
def nested : Store :=
  { Store.empty with documents :=
      ((Documents.empty.put "users/u1" []).put "users/u1/posts/p" []).put "users/u10/likes/l" [] }

theorem toList_nested : nested.documents.toList =
    [⟨"users/u1", []⟩, ⟨"users/u1/posts/p", []⟩, ⟨"users/u10/likes/l", []⟩] := by
  rfl

theorem reachable_nested : nested.Reachable := by
  have hFirst := (Reachable.empty IdSource.counting).put
    (by decide +kernel : Path.Trimmed "users/u1") (by decide +kernel) []
  have hSecond := hFirst.put (by decide +kernel : Path.Trimmed "users/u1/posts/p")
    (by decide +kernel) []
  exact hSecond.put (by decide +kernel : Path.Trimmed "users/u10/likes/l") (by decide +kernel) []

theorem namesFilled_nested : nested.NamesFilled := by
  simp only [NamesFilled, toList_nested, List.forall_mem_cons, List.not_mem_nil, false_imp_iff,
    implies_true, and_true]
  decide +kernel

/-- Outcomes are not compared as such, so what is computed is whether these are
the names. -/
theorem lists_of_beq {result : Except QueryError Outcome} {names : List String}
    (h : (match result with
      | .ok (.collections found) => found == names
      | _ => false) = true) : result = .ok (.collections names) := by
  split at h
  · rw [beq_iff_eq.mp h]
  · cases h

/-- A store with collections at the root, below a document and below a document
whose path begins alike. -/
theorem Reachable.shows_collections_nested :
    Listing ["users"] (fun name => ∃ document ∈ nested.documents.toList, document.path ≠ "" ∧
        (Path.segments document.path).head? = some name) ∧
      Listing ["posts"] (nested.HoldsBelow "users/u1") ∧
      ∃ documents : List Document,
        resultOf (Engine.execute {} (.select (.every ⟨"users", .collection⟩ []))) ⟨nested, .none⟩ =
          .ok (.documents (.array (documents.map Document.toValue))) ∧
        Listing ["posts"] fun name =>
          ∃ document ∈ documents, nested.HoldsBelow document.path name := by
  have hShows := reachable_nested.shows_collections namesFilled_nested rfl {} .none
  refine ⟨?_, ?_, ?_⟩
  · obtain ⟨names, hRun, hListing⟩ := hShows.root
    have hNames := hRun.symm.trans (@lists_of_beq _ ["users"] (by decide +kernel))
    rwa [Outcome.collections.inj (Except.ok.inj hNames)] at hListing
  · obtain ⟨names, hRun, hListing, _⟩ := hShows.document "users/u1" (by decide +kernel)
    have hNames := hRun.symm.trans (@lists_of_beq _ ["posts"] (by decide +kernel))
    have hTrim : Path.trim "users/u1" = "users/u1" := by decide +kernel
    rwa [Outcome.collections.inj (Except.ok.inj hNames), hTrim] at hListing
  · obtain ⟨documents, names, hNames, _, hSelect, hListing⟩ :=
      hShows.below ⟨"users", .collection⟩ (.collections ["posts"]) nofun
        (lists_of_beq (by decide +kernel))
    obtain rfl := Outcome.collections.inj hNames
    exact ⟨documents, hSelect, hListing⟩

end Store

end DocQuery
