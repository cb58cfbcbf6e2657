import DocQuery.Proofs.Execution.Reachable
import Mathlib.Data.List.Dedup

/-! Collection groups. The scope of a group looks at the name of the parent and
the scope of a collection at the whole of it, yet the documents of a group are
those of the collections of its name, each of exactly one of them, and merging
what is found in the collections gives what is found in the group. -/
namespace DocQuery

namespace Scope

/-- A collection contains the documents directly below its trimmed path. -/
theorem contains_collection_iff {path wanted : String} :
    (Scope.collection wanted).contains path = true ↔
      Path.parent? path = some (Path.trim wanted) := by
  rw [contains]
  cases Path.parent? path with
  | none => simp
  | some parent => simp

/-- A group contains the documents whose collection has its name, wherever it
stands. -/
theorem contains_group_iff {path name : String} :
    (Scope.group name).contains path = true ↔
      Path.isDocument path = true ∧
        ∃ parent, Path.parent? path = some parent ∧ Path.name parent = name := by
  rw [contains]
  cases Path.parent? path with
  | none => simp
  | some parent => simp [and_comm]

/-- A document of a group is one name below the group's, whatever is above
that. -/
theorem contains_group_child_iff {path name : String} (hDocument : Path.isDocument path = true)
    (hName : '/' ∉ name.toList) :
    (Scope.group name).contains path = true ↔
      ∃ id, '/' ∉ id.toList ∧ (path = Path.child name id ∨
        ∃ above, path = Path.child (Path.child above name) id) := by
  simp only [contains_group_iff, hDocument, true_and, Path.parent?_eq_some_iff,
    Path.name_eq_iff]
  constructor
  · rintro ⟨parent, ⟨id, hId, hPath⟩, _, hParent⟩
    rcases hParent with rfl | ⟨above, rfl⟩
    · exact ⟨id, hId, Or.inl hPath⟩
    · exact ⟨id, hId, Or.inr ⟨above, hPath⟩⟩
  · rintro ⟨id, hId, hPath | ⟨above, hPath⟩⟩
    · exact ⟨name, ⟨id, hId, hPath⟩, hName, Or.inl rfl⟩
    · exact ⟨Path.child above name, ⟨id, hId, hPath⟩, hName, Or.inr ⟨above, rfl⟩⟩

end Scope

namespace FetchRequest

/-- A request selects what lies in its scope, passes its filters and has the
fields that it orders by. -/
theorem selects_iff (request : FetchRequest) (document : Document) :
    request.selects document = true ↔ request.scope.contains document.path = true ∧
      (∀ filter ∈ request.filters, filter.holds document.fields = true) ∧
      ∀ order ∈ request.orders, (document.fields.field? order.field).isSome = true := by
  simp [selects, and_assoc]

end FetchRequest

section Merging

variable {orders : List FieldOrder} {parts : List (List Document)}

/-- Lists of documents merged into one by the places of the documents. -/
def mergePlaces (orders : List FieldOrder) (parts : List (List Document)) : List Document :=
  parts.foldr
    (fun part merged => part.merge merged fun a b => (comparePlaces orders a b).isLE) []

/-- Merging loses no document and adds none. -/
theorem mergePlaces_perm (orders : List FieldOrder) (parts : List (List Document)) :
    (mergePlaces orders parts).Perm parts.flatten := by
  induction parts with
  | nil => exact List.Perm.refl _
  | cons part rest ih =>
      rw [List.flatten_cons]
      exact (List.merge_perm_append _).trans (ih.append_left part)

/-- Merging parts in order gives a whole in order. -/
theorem ordered_mergePlaces
    (h : ∀ part ∈ parts, part.Pairwise fun a b => (comparePlaces orders a b).isLE = true) :
    (mergePlaces orders parts).Pairwise fun a b => (comparePlaces orders a b).isLE = true := by
  induction parts with
  | nil => exact List.Pairwise.nil
  | cons part rest ih =>
      obtain ⟨hPart, hRest⟩ := List.forall_mem_cons.mp h
      exact List.pairwise_merge (fun _ _ _ => Std.TransCmp.isLE_trans)
        (isLE_total (comparePlaces orders)) _ _ hPart (ih hRest)

/-- Documents in order that are spread over disjoint parts come from merging the
parts. -/
theorem eq_mergePlaces {found : List Document} (hFound : Ascending orders found)
    (hPaths : found.Pairwise fun a b => a.path ≠ b.path)
    (hParts : ∀ part ∈ parts, Ascending orders part)
    (hDisjoint : parts.Pairwise List.Disjoint)
    (hMem : ∀ document, document ∈ found ↔ document ∈ parts.flatten) :
    found = mergePlaces orders parts := by
  have hFlat : parts.flatten.Nodup :=
    List.nodup_flatten.mpr ⟨fun part hPart => (hParts part hPart).nodup, hDisjoint⟩
  have hPerm : found.Perm (mergePlaces orders parts) :=
    ((List.perm_ext_iff_of_nodup hFound.nodup hFlat).mpr hMem).trans
      (mergePlaces_perm orders parts).symm
  have hOrdered := ordered_mergePlaces fun part hPart =>
    (hParts part hPart).imp fun hBefore => Ordering.isLE_of_eq_lt hBefore
  exact hFound.eq_of_perm (ascending_of_distinct hOrdered (hPaths.perm hPerm Ne.symm)) hPerm

end Merging

namespace Documents

/-- The paths of the collections that hold documents, each once. -/
def collections (documents : Documents) : List String :=
  (documents.toList.filterMap fun document => Path.parent? document.path).dedup

/-- Those of the collections that have a name. -/
def collectionsNamed (documents : Documents) (name : String) : List String :=
  documents.collections.filter fun path => Path.name path == name

/-- The collections of a store are the parents of its documents. -/
theorem mem_collections {documents : Documents} {path : String} :
    path ∈ documents.collections ↔
      ∃ document ∈ documents.toList, Path.parent? document.path = some path := by
  simp [collections]

theorem mem_collectionsNamed {documents : Documents} {name path : String} :
    path ∈ documents.collectionsNamed name ↔
      path ∈ documents.collections ∧ Path.name path = name := by
  simp [collectionsNamed]

theorem nodup_collectionsNamed (documents : Documents) (name : String) :
    (documents.collectionsNamed name).Nodup :=
  (List.nodup_dedup _).filter _

end Documents

namespace Store

/-- No path of a document has an empty name in it; the path without any name is
not meant. -/
def NamesFilled (store : Store) : Prop :=
  ∀ document ∈ store.documents.toList, document.path ≠ "" → "" ∉ Path.segments document.path

variable {store : Store}

/-- The collections of a store without empty names are at odd depths, and asking
for one of them looks in it. -/
theorem WellAddressed.of_mem_collections (h : store.WellAddressed) (hFilled : store.NamesFilled)
    {path : String} (hPath : path ∈ store.documents.collections) :
    Path.isDocument path = false ∧ Path.trim path = path := by
  obtain ⟨document, hStored, hParent⟩ := Documents.mem_collections.mp hPath
  obtain ⟨id, hId, hChild⟩ := Path.parent?_eq_some_iff.mp hParent
  have hSegments : Path.segments document.path = Path.segments path ++ [id] := by
    rw [hChild, Path.segments_child path hId]
  have hSome : document.path ≠ "" := hChild ▸ Path.child_ne_empty path id
  have hNames := hFilled document hStored hSome
  simp only [hSegments, List.mem_append, List.mem_singleton, not_or] at hNames
  have hDepth : Path.depth document.path = Path.depth path + 1 := by
    rw [hChild, Path.depth_child path ⟨Ne.symm hNames.2, hId⟩]
  have hEven := (h document hStored).2
  simp only [Path.isDocument, beq_iff_eq] at hEven
  refine ⟨?_, Path.trim_eq_self (Path.trimmed_of_names hNames.1)⟩
  simp only [Path.isDocument, beq_eq_false_iff_ne]
  omega

/-- A document is in the scope of a group if it is in that of a collection of
the name. -/
theorem WellAddressed.contains_group_iff (h : store.WellAddressed) (hFilled : store.NamesFilled)
    {document : Document} (hStored : document ∈ store.documents.toList) (name : String) :
    (Scope.group name).contains document.path = true ↔
      ∃ path ∈ store.documents.collectionsNamed name,
        (Scope.collection path).contains document.path = true := by
  simp only [Scope.contains_group_iff, Scope.contains_collection_iff,
    Documents.mem_collectionsNamed]
  constructor
  · rintro ⟨_, path, hParent, hName⟩
    have hPath := Documents.mem_collections.mpr ⟨document, hStored, hParent⟩
    exact ⟨path, ⟨hPath, hName⟩, by rw [(h.of_mem_collections hFilled hPath).2, hParent]⟩
  · rintro ⟨path, ⟨hPath, hName⟩, hParent⟩
    rw [(h.of_mem_collections hFilled hPath).2] at hParent
    exact ⟨(h document hStored).2, path, hParent, hName⟩

/-- No document is in two collections. -/
theorem WellAddressed.collection_unique (h : store.WellAddressed) (hFilled : store.NamesFilled)
    {path other : String} (hPath : path ∈ store.documents.collections)
    (hOther : other ∈ store.documents.collections) {text : String}
    (hIn : (Scope.collection path).contains text = true)
    (hInOther : (Scope.collection other).contains text = true) : path = other := by
  rw [Scope.contains_collection_iff, (h.of_mem_collections hFilled hPath).2] at hIn
  rw [Scope.contains_collection_iff, (h.of_mem_collections hFilled hOther).2] at hInOther
  exact Option.some.inj (hIn.symm.trans hInOther)

/-- What is found in a scope with filters and orders. -/
def foundIn (store : Store) (filters : List Filter) (orders : List FieldOrder) (scope : Scope) :
    List Document :=
  FetchRequest.ranked { scope, filters, orders } store.documents.toList

theorem resultOf_fetch_scope (h : store.offline = false) (filters : List Filter)
    (orders : List FieldOrder) (scope : Scope) :
    resultOf (Store.fetch { scope, filters, orders }) store =
      .ok (store.foundIn filters orders scope) :=
  (leads_fetch h _).resultOf_eq

/-- Found in a scope is what a request for this scope selects. -/
theorem mem_foundIn {filters : List Filter} {orders : List FieldOrder} {scope : Scope}
    {document : Document} :
    document ∈ store.foundIn filters orders scope ↔
      document ∈ store.documents.toList ∧ scope.contains document.path = true ∧
        (∀ filter ∈ filters, filter.holds document.fields = true) ∧
        ∀ order ∈ orders, (document.fields.field? order.field).isSome = true := by
  rw [foundIn, FetchRequest.mem_ranked, FetchRequest.selects_iff]

theorem ascending_foundIn (filters : List Filter) (orders : List FieldOrder) (scope : Scope) :
    Ascending orders (store.foundIn filters orders scope) :=
  FetchRequest.ascending_ranked { scope, filters, orders } store.documents.paths_distinct

theorem distinct_foundIn (filters : List Filter) (orders : List FieldOrder) (scope : Scope) :
    (store.foundIn filters orders scope).Pairwise fun a b => a.path ≠ b.path :=
  FetchRequest.distinct_ranked { scope, filters, orders } store.documents.paths_distinct

/-- A document of a group is one of a collection with the name of the group. -/
theorem WellAddressed.mem_foundIn_group (h : store.WellAddressed) (hFilled : store.NamesFilled)
    {filters : List Filter} {orders : List FieldOrder} {name : String} {document : Document} :
    document ∈ store.foundIn filters orders (.group name) ↔
      ∃ path ∈ store.documents.collectionsNamed name,
        document ∈ store.foundIn filters orders (.collection path) := by
  simp only [mem_foundIn]
  constructor
  · rintro ⟨hStored, hIn, hKept⟩
    obtain ⟨path, hPath, hHere⟩ := (h.contains_group_iff hFilled hStored name).mp hIn
    exact ⟨path, hPath, hStored, hHere, hKept⟩
  · rintro ⟨path, hPath, hStored, hHere, hKept⟩
    exact ⟨hStored, (h.contains_group_iff hFilled hStored name).mpr ⟨path, hPath, hHere⟩, hKept⟩

/-- No document lies in two collections. -/
theorem WellAddressed.disjoint_foundIn (h : store.WellAddressed) (hFilled : store.NamesFilled)
    (filters : List Filter) (orders : List FieldOrder) {path other : String}
    (hPath : path ∈ store.documents.collections) (hOther : other ∈ store.documents.collections)
    (hNe : path ≠ other) :
    (store.foundIn filters orders (.collection path)).Disjoint
      (store.foundIn filters orders (.collection other)) :=
  fun _ hIn hInOther => hNe <| h.collection_unique hFilled hPath hOther
    (mem_foundIn.mp hIn).2.1 (mem_foundIn.mp hInOther).2.1

/-- Merging the collections of a name gives the group, in whatever order they
are merged. -/
theorem WellAddressed.foundIn_group (h : store.WellAddressed) (hFilled : store.NamesFilled)
    (filters : List Filter) (orders : List FieldOrder) {name : String} {paths : List String}
    (hPaths : paths.Perm (store.documents.collectionsNamed name)) :
    store.foundIn filters orders (.group name) =
      mergePlaces orders
        (paths.map fun path => store.foundIn filters orders (.collection path)) := by
  have hCollection {path : String} (hPath : path ∈ paths) : path ∈ store.documents.collections :=
    (Documents.mem_collectionsNamed.mp (hPaths.mem_iff.mp hPath)).1
  apply eq_mergePlaces (ascending_foundIn filters orders _) (distinct_foundIn filters orders _)
  · rintro _ hPart
    obtain ⟨path, _, rfl⟩ := List.mem_map.mp hPart
    exact ascending_foundIn filters orders _
  · rw [List.pairwise_map]
    have hDistinct : paths.Nodup :=
      hPaths.nodup_iff.mpr (store.documents.nodup_collectionsNamed name)
    exact hDistinct.imp_of_mem fun hPath hOther hNe =>
      h.disjoint_foundIn hFilled filters orders (hCollection hPath) (hCollection hOther) hNe
  · intro document
    rw [h.mem_foundIn_group hFilled]
    simp [hPaths.mem_iff]

/-- How what is found in a group is put together from what is found in each
collection, with the same filters and orders. -/
structure GroupFound (store : Store) (name : String) (filters : List Filter)
    (orders : List FieldOrder) (found : List Document) (part : String → List Document) : Prop where
  group : resultOf (Store.fetch { scope := .group name, filters, orders }) store = .ok found
  collection (path : String) :
    resultOf (Store.fetch { scope := .collection path, filters, orders }) store = .ok (part path)
  mem_iff (document : Document) :
    document ∈ found ↔ ∃ path ∈ store.documents.collectionsNamed name, document ∈ part path
  unique : ∀ document ∈ found,
    ∃! path, path ∈ store.documents.collectionsNamed name ∧ document ∈ part path
  /-- The collections can be merged one after the other in any order. -/
  merged : ∀ paths : List String, paths.Perm (store.documents.collectionsNamed name) →
    found = mergePlaces orders (paths.map part)
  /-- In a collection are the documents that are one name below its path. -/
  mem_part_iff (path : String) (document : Document) :
    document ∈ part path ↔ document ∈ store.documents.toList ∧
      (∃ id, '/' ∉ id.toList ∧ document.path = Path.child (Path.trim path) id) ∧
      (∀ filter ∈ filters, filter.holds document.fields = true) ∧
      ∀ order ∈ orders, (document.fields.field? order.field).isSome = true
  /-- In a group are the documents that are one name below the group's, whatever
  is above that. -/
  mem_found_iff (document : Document) :
    document ∈ found ↔ document ∈ store.documents.toList ∧
      (∃ id, '/' ∉ id.toList ∧ (document.path = Path.child name id ∨
        ∃ above, document.path = Path.child (Path.child above name) id)) ∧
      (∀ filter ∈ filters, filter.holds document.fields = true) ∧
      ∀ order ∈ orders, (document.fields.field? order.field).isSome = true

/-- A group holds the documents of its collections, each once and in the order
asked for. -/
theorem WellAddressed.groupFound (h : store.WellAddressed) (hFilled : store.NamesFilled)
    (hOnline : store.offline = false) {name : String} (hName : '/' ∉ name.toList)
    (filters : List Filter) (orders : List FieldOrder) :
    store.GroupFound name filters orders (store.foundIn filters orders (.group name))
      fun path => store.foundIn filters orders (.collection path) where
  group := resultOf_fetch_scope hOnline filters orders _
  collection path := resultOf_fetch_scope hOnline filters orders _
  mem_iff document := h.mem_foundIn_group hFilled
  unique document hDocument := by
    obtain ⟨path, hPath, hIn⟩ := (h.mem_foundIn_group hFilled).mp hDocument
    refine ⟨path, ⟨hPath, hIn⟩, fun other ⟨hOther, hInOther⟩ => ?_⟩
    exact h.collection_unique hFilled (Documents.mem_collectionsNamed.mp hOther).1
      (Documents.mem_collectionsNamed.mp hPath).1 (mem_foundIn.mp hInOther).2.1
      (mem_foundIn.mp hIn).2.1
  merged paths hPaths := h.foundIn_group hFilled filters orders hPaths
  mem_part_iff path document := by
    rw [mem_foundIn, Scope.contains_collection_iff, Path.parent?_eq_some_iff]
  mem_found_iff document := by
    rw [mem_foundIn, and_congr_right_iff]
    intro hStored
    rw [Scope.contains_group_child_iff (h document hStored).2 hName]

/-- A group is the disjoint union of the collections of its name, in every store
that can be reached and has no empty names in its paths. A store that is offline
finds neither. -/
theorem Reachable.group_disjoint_union (h : store.Reachable) (hFilled : store.NamesFilled)
    {name : String} (hName : '/' ∉ name.toList) (filters : List Filter)
    (orders : List FieldOrder) :
    (store.offline = false → ∃ found part, store.GroupFound name filters orders found part) ∧
      (store.offline = true → ∀ scope : Scope,
        resultOf (Store.fetch { scope, filters, orders }) store =
          .error (.unavailable .offline)) :=
  ⟨fun hOnline => ⟨_, _, h.wellAddressed.groupFound hFilled hOnline hName filters orders⟩,
    fun hOffline _ => (leads_fetch_of_offline hOffline _).resultOf_eq⟩

/-- Posts at the root and below a user, and a collection whose name ends like
theirs. -/
def grouped : Store :=
  { Store.empty with documents :=
      ((Documents.empty.put "posts/p" []).put "reposts/r" []).put "users/u/posts/q" [] }

theorem toList_grouped : grouped.documents.toList =
    [⟨"posts/p", []⟩, ⟨"reposts/r", []⟩, ⟨"users/u/posts/q", []⟩] := by
  rfl

theorem reachable_grouped : grouped.Reachable := by
  have hFirst := (Reachable.empty IdSource.counting).put
    (by decide +kernel : Path.Trimmed "posts/p")
    (by decide +kernel) []
  have hSecond := hFirst.put (by decide +kernel : Path.Trimmed "reposts/r") (by decide +kernel) []
  exact hSecond.put (by decide +kernel : Path.Trimmed "users/u/posts/q") (by decide +kernel) []

theorem namesFilled_grouped : grouped.NamesFilled := by
  simp only [NamesFilled, toList_grouped, List.forall_mem_cons, List.not_mem_nil, false_imp_iff,
    implies_true, and_true]
  decide +kernel

/-- Two collections of one name at different depths, and one whose name only
ends alike. -/
theorem Reachable.group_disjoint_union_grouped :
    ∃ found part, grouped.GroupFound "posts" [] [] found part ∧
      ⟨"posts/p", []⟩ ∈ found ∧ ⟨"users/u/posts/q", []⟩ ∈ found ∧ ⟨"reposts/r", []⟩ ∉ found := by
  obtain ⟨found, part, hFound⟩ :=
    (reachable_grouped.group_disjoint_union namesFilled_grouped
      (by decide : '/' ∉ "posts".toList) [] []).1 rfl
  refine ⟨found, part, hFound, ?_, ?_, ?_⟩
  · apply (hFound.mem_found_iff _).mpr
    rw [toList_grouped]
    exact ⟨by simp, ⟨"p", by decide, Or.inl rfl⟩, by simp, by simp⟩
  · apply (hFound.mem_found_iff _).mpr
    rw [toList_grouped]
    exact ⟨by simp, ⟨"q", by decide, Or.inr ⟨"users/u", rfl⟩⟩, by simp, by simp⟩
  · intro hMem
    obtain ⟨_, hBelow, _⟩ := (hFound.mem_found_iff _).mp hMem
    have hIn := (Scope.contains_group_child_iff (by decide +kernel) (by decide)).mpr hBelow
    exact absurd hIn (by decide +kernel)

end Store

end DocQuery
