import DocQuery.Proofs.Document.MergeLaws
import DocQuery.Proofs.Document.Setters
import DocQuery.Proofs.Execution.Mutation

/-! Updates run again, and updates run as one. The store merges a patch into the
document that is there, so the laws of merging are laws of updates: the same
update changes nothing when it is run again, and two updates of a document can
be made in one if the first patch makes room for the second. -/
namespace DocQuery

namespace Documents

variable {documents : Documents} {path : String} {fields : Fields}

theorem eq_of_toList_eq {first second : Documents} (h : first.toList = second.toList) :
    first = second := by
  cases first
  cases second
  exact (Documents.mk.injEq ..).mpr h

/-- A document that is put in the place of another one is found there. -/
theorem get?_put_of_get? (h : documents.get? path = some fields) (others : Fields) :
    (documents.put path others).get? path = some others := by
  rw [get?_eq_some_iff, toList_put h]
  exact List.mem_map.mpr ⟨_, mem_of_get? h, if_pos rfl⟩

/-- Of two documents put in one place only the second stays. -/
theorem put_put (h : documents.get? path = some fields) (others last : Fields) :
    (documents.put path others).put path last = documents.put path last := by
  apply eq_of_toList_eq
  rw [toList_put (get?_put_of_get? h others), toList_put h, toList_put h, List.map_map]
  refine List.map_congr_left fun document _ => ?_
  by_cases hPath : document.path = path
  · simp [hPath]
  · simp [hPath]

end Documents

namespace Store

/-- The fields that an update of a path finds, or why it finds none. -/
def updatable (store : Store) (path : String) : Except StoreError Fields :=
  if store.offline then .error (.unavailable .offline)
  else if store.failing.contains (Path.trim path) then
    .error (.unavailable (.write (Path.trim path)))
  else match store.documents.get? (Path.trim path) with
    | none => .error (.notFound (Path.trim path))
    | some fields => .ok fields

/-- The store after an update that found some fields, or none. -/
def updated (store : Store) (path : String) (patch : Fields) : Except StoreError Fields → Store
  | .ok fields => { store.counted (fun calls => { calls with updates := calls.updates + 1 }) with
      documents := store.documents.put (Path.trim path) (fields.merge patch) }
  | .error _ => store.counted fun calls => { calls with updates := calls.updates + 1 }

section Updates

variable {store : Store} {path : String} {fields : Fields}

/-- A document can be updated if the store is online, does not fail at its path
and holds it. -/
theorem updatable_eq_ok_iff : store.updatable path = .ok fields ↔ store.offline = false ∧
    store.failing.contains (Path.trim path) = false ∧
      store.documents.get? (Path.trim path) = some fields := by
  rw [updatable]
  cases hOffline : store.offline with
  | true => simp
  | false =>
      cases hFailing : store.failing.contains (Path.trim path) with
      | true => simp
      | false => cases store.documents.get? (Path.trim path) <;> simp

/-- What an update does is said by the fields that it finds. -/
theorem leads_update_updatable (store : Store) (path : String) (patch : Fields) :
    Leads (Store.update path patch) store ((store.updatable path).map fun _ => ())
      (store.updated path patch (store.updatable path)) := by
  refine (leads_count store _).bind ?_
  rw [updatable]
  cases hOffline : store.offline with
  | true =>
      exact (leads_requireOnline_of_offline (store.counted _) hOffline).bind_error.bind_error
  | false =>
      cases hFailing : store.failing.contains (Path.trim path) with
      | true =>
          exact (leads_requireWritable_of_failing (store.counted _) hOffline hFailing).bind_error
      | false =>
          refine (leads_requireWritable (store.counted _) hOffline hFailing).bind
            ((leads_get _).bind ?_)
          have hDocuments (call : Calls → Calls) :
              (store.counted call).documents = store.documents := rfl
          rw [hDocuments]
          cases hGet : store.documents.get? (Path.trim path) with
          | none => exact leads_throw _ _
          | some fields => exact leads_modify _ _

/-- An update succeeds exactly if the document can be updated. -/
theorem resultOf_update (store : Store) (path : String) (patch : Fields) :
    resultOf (Store.update path patch) store = (store.updatable path).map fun _ => () :=
  (leads_update_updatable store path patch).resultOf_eq

/-- An update merges into the document if it can be updated, and otherwise only
counts the call. -/
theorem finishOf_update (store : Store) (path : String) (patch : Fields) :
    finishOf (Store.update path patch) store = store.updated path patch (store.updatable path) :=
  (leads_update_updatable store path patch).finishOf_eq

/-- An update finds what the one before it has left. -/
theorem updatable_updated (store : Store) (path : String) (patch : Fields) :
    (store.updated path patch (store.updatable path)).updatable path =
      (store.updatable path).map fun fields => fields.merge patch := by
  cases hFound : store.updatable path with
  | error fault => exact hFound
  | ok fields =>
      obtain ⟨hOnline, hWritable, hGet⟩ := updatable_eq_ok_iff.mp hFound
      exact updatable_eq_ok_iff.mpr ⟨hOnline, hWritable, Documents.get?_put_of_get? hGet _⟩

/-- After two updates of a path the document holds both patches. -/
theorem documents_updated_updated (store : Store) (path : String) (patch next : Fields) :
    ((store.updated path patch (store.updatable path)).updated path next
        ((store.updatable path).map fun fields => fields.merge patch)).documents =
      match store.updatable path with
      | .ok fields => store.documents.put (Path.trim path) ((fields.merge patch).merge next)
      | .error _ => store.documents := by
  cases hFound : store.updatable path with
  | error fault => rfl
  | ok fields =>
      obtain ⟨_, _, hGet⟩ := updatable_eq_ok_iff.mp hFound
      exact Documents.put_put hGet _ _

end Updates

/-- What it means that updates of a path follow the laws of merging. -/
structure LawfulUpdates (store : Store) (path : String) (patch next : Fields) : Prop where
  /-- An update that is run again ends in the same way and changes nothing. -/
  again : let once := finishOf (Store.update path patch) store
    resultOf (Store.update path patch) once = resultOf (Store.update path patch) store ∧
      (finishOf (Store.update path patch) once).documents = once.documents
  /-- Two updates end as one with both patches does, and leave the same
  documents. -/
  together : (Value.object patch).MakesRoomFor (.object next) →
    let once := finishOf (Store.update path patch) store
    resultOf (Store.update path patch) store =
      resultOf (Store.update path (patch.merge next)) store ∧
      resultOf (Store.update path next) once =
        resultOf (Store.update path (patch.merge next)) store ∧
      (finishOf (Store.update path next) once).documents =
        (finishOf (Store.update path (patch.merge next)) store).documents

/-- Updates follow the laws of merging, since an update is a merge wherever it
succeeds. -/
theorem lawfulUpdates (store : Store) (path : String) {patch next : Fields}
    (hPatch : (Value.object patch).KeysDistinct) (hNext : (Value.object next).KeysDistinct) :
    store.LawfulUpdates path patch next := by
  have hResult (other : Fields) :
      resultOf (Store.update path other) (finishOf (Store.update path patch) store) =
        (store.updatable path).map fun _ => () := by
    rw [resultOf_update, finishOf_update, updatable_updated]
    cases store.updatable path with
    | error fault => rfl
    | ok fields => rfl
  have hDocuments (other : Fields) :
      (finishOf (Store.update path other) (finishOf (Store.update path patch) store)).documents =
        match store.updatable path with
        | .ok fields => store.documents.put (Path.trim path) ((fields.merge patch).merge other)
        | .error _ => store.documents := by
    rw [finishOf_update, finishOf_update, updatable_updated, documents_updated_updated]
  constructor
  · refine ⟨(hResult patch).trans (resultOf_update store path patch).symm, ?_⟩
    rw [hDocuments, finishOf_update]
    cases store.updatable path with
    | error fault => rfl
    | ok fields => exact congrArg (store.documents.put _) (Fields.merge_again hPatch fields)
  · intro hRoom
    refine ⟨?_, (hResult next).trans (resultOf_update store path _).symm, ?_⟩
    · rw [resultOf_update, resultOf_update]
    · rw [hDocuments, finishOf_update]
      cases store.updatable path with
      | error fault => rfl
      | ok fields =>
          have hMerge := Fields.merge_assoc fields hRoom hPatch hNext.1 hNext.2
          exact congrArg (store.documents.put _) hMerge

end Store

theorem Fields.keysDistinct_unflatten {entries : Fields}
    (h : ∀ entry ∈ entries, entry.2.KeysDistinct) : (Value.object entries.unflatten).KeysDistinct :=
  List.foldlRecOn (motive := fun fields => (Value.object fields).KeysDistinct) entries _
    ⟨List.nodup_nil, trivial⟩ fun _ hFields entry hEntry =>
      keysDistinct_merge_expand hFields (h entry hEntry) entry.1

/-- Setters describe a patch that names no field twice. -/
theorem keysDistinct_patchOf (setters : List Setter) :
    (Value.object (patchOf setters)).KeysDistinct := by
  refine Fields.keysDistinct_unflatten fun entry hEntry => ?_
  obtain ⟨setter, _, rfl⟩ := List.mem_map.mp (Fields.mem_of_mem_ofList hEntry)
  exact setter.value.keysDistinct_toValue

section Rewritten

variable {change : Fields → Fields} {paths : List String} {documents : List Document}

/-- A rewritten document is an old one, or an old one with its fields
changed. -/
theorem mem_rewritten_some {document : Document}
    (h : document ∈ rewritten (fun fields => some (change fields)) paths documents) :
    (document ∈ documents ∧ document.path ∉ paths) ∨
      ∃ old ∈ documents, document = ⟨old.path, change old.fields⟩ := by
  obtain ⟨old, hOld, hChanged⟩ := List.mem_filterMap.mp h
  split at hChanged
  · exact .inr ⟨old, hOld, (Option.some.inj hChanged).symm⟩
  · rename_i hPath
    obtain rfl := Option.some.inj hChanged
    exact .inl ⟨hOld, hPath⟩

/-- Where the change has no effect nothing is rewritten. -/
theorem rewritten_eq_self
    (h : ∀ document ∈ documents, document.path ∈ paths → change document.fields = document.fields) :
    rewritten (fun fields => some (change fields)) paths documents = documents := by
  refine (List.filterMap_congr fun document hDocument => ?_).trans List.filterMap_some
  split
  · rename_i hPath
    rw [Option.map_some, h document hDocument hPath]
  · rfl

/-- Changed documents are at the paths of the old ones. -/
theorem Store.Rewrites.wellAddressed {store finish : Store}
    (h : Rewrites (fun fields => some (change fields)) paths store finish)
    (hAddressed : store.WellAddressed) : finish.WellAddressed := by
  intro document hDocument
  rw [h.documents] at hDocument
  rcases mem_rewritten_some hDocument with ⟨hOld, _⟩ | ⟨old, hOld, rfl⟩
  · exact hAddressed document hOld
  · exact hAddressed old hOld

end Rewritten

/-- A selection leaves the documents as they are, and the store online or
offline as it is. -/
theorem Select.unchanged_by_selection (q : Select) (maximum : Nat) (store : Store) :
    (finishOf (q.selection maximum) store).documents = store.documents ∧
      (finishOf (q.selection maximum) store).offline = store.offline :=
  q.keeps_selection
    (P := fun other => other.documents = store.documents ∧ other.offline = store.offline)
    (fun _ _ _ h => h) maximum store ⟨rfl, rfl⟩

namespace Engine

section Again

variable (engine : Engine) {world : World} {write : String → StoreM Unit}
  {change : Fields → Fields} (hWrite : Store.WritesAs write fun fields => some (change fields))
  (hAddressed : world.store.WellAddressed) {subject : Subject} {clauses : List Clause}

/-- What cannot be selected can still not be selected when the statement is run
again. -/
theorem selection_fails_again {fault : QueryError}
    (h : resultOf ((Select.every subject clauses).selection engine.maximum) world.store =
      .error fault) :
    ∃ fault, resultOf ((Select.every subject clauses).selection engine.maximum)
      (finishOf (engine.writeSelected (Select.every subject clauses).plan write) world).store =
        .error fault := by
  have hSelection := leads_of ((Select.every subject clauses).selection engine.maximum) world.store
  rw [h] at hSelection
  rw [(engine.leads_writeSelected_of_error write hSelection).finishOf_eq]
  obtain ⟨hDocuments, hOffline⟩ :=
    (Select.every subject clauses).unchanged_by_selection engine.maximum world.store
  cases hSecond : resultOf ((Select.every subject clauses).selection engine.maximum)
      (finishOf ((Select.every subject clauses).selection engine.maximum) world.store) with
  | error fault => exact ⟨fault, rfl⟩
  | ok documents =>
      obtain ⟨fetched, picked, hPicks⟩ := Select.exists_picks hSecond
      obtain ⟨hOnline, hMaximum, _⟩ := hPicks.of_ok hSecond
      rw [hDocuments] at hMaximum
      obtain ⟨others, hOthers⟩ := hPicks.exists_ok (hOffline ▸ hOnline) hMaximum
      cases h.symm.trans hOthers

include hWrite hAddressed

/-- A change that does nothing when it is made again does nothing when the
statement is run again, whatever is selected then: a document that was changed
is not changed further, and one that was not is as little selected as before. -/
theorem documents_writeSelected_again (hAgain : ∀ fields, change (change fields) = change fields) :
    (finishOf (engine.writeSelected (Select.every subject clauses).plan write)
      (finishOf (engine.writeSelected (Select.every subject clauses).plan write)
        world)).store.documents =
      (finishOf (engine.writeSelected (Select.every subject clauses).plan write)
        world).store.documents := by
  have hFirst := engine.writesTo_writeSelected hWrite hAddressed subject clauses
  cases hSelection : resultOf ((Select.every subject clauses).selection engine.maximum)
      world.store with
  | error fault =>
      obtain ⟨later, hLater⟩ :=
        @selection_fails_again engine world write subject clauses fault hSelection
      have hStill : (finishOf (engine.writeSelected (Select.every subject clauses).plan write)
          world).store.WellAddressed := by
        intro document hDocument
        rw [(hFirst.fails fault hSelection).2] at hDocument
        exact hAddressed document hDocument
      exact ((engine.writesTo_writeSelected hWrite hStill subject clauses).fails later hLater).2
  | ok documents =>
      have hRewrites := hFirst.writes documents hSelection
      have hStill := hRewrites.wellAddressed hAddressed
      have hSecond := engine.writesTo_writeSelected hWrite hStill subject clauses
      cases hLater : resultOf ((Select.every subject clauses).selection engine.maximum)
          (finishOf (engine.writeSelected (Select.every subject clauses).plan write)
            world).store with
      | error fault => exact (hSecond.fails fault hLater).2
      | ok others =>
          obtain ⟨fetched, picked, hPicks⟩ := Select.exists_picks hSelection
          have hPicked := (hPicks.of_ok hSelection).2.2.2
          have hPickedAgain := (hPicks.of_ok hLater).2.2.2
          apply Documents.eq_of_toList_eq
          rw [(hSecond.writes others hLater).documents]
          refine rewritten_eq_self fun document hDocument hWritten => ?_
          have hThere := hDocument
          rw [hRewrites.documents] at hThere
          rcases mem_rewritten_some hThere with ⟨hOld, hUnwritten⟩ | ⟨old, _, rfl⟩
          · refine absurd ?_ hUnwritten
            obtain ⟨hPath, hWritable⟩ := List.mem_filter.mp hWritten
            obtain ⟨other, hOther, hSame⟩ := List.mem_map.mp hPath
            obtain ⟨hHere, hPick⟩ := (hPickedAgain other).mp hOther
            obtain rfl := List.inj_on_of_nodup_map (Documents.nodup_paths _) hHere hDocument hSame
            rw [hRewrites.failing] at hWritable
            have hSelected := (hPicked other).mpr ⟨hOld, hPick⟩
            exact List.mem_filter.mpr ⟨List.mem_map_of_mem hSelected, hWritable⟩
          · exact hAgain old.fields

end Again

/-- Merging is lawful, and so are updates: of a path in a store, run again or
run as one, and as statements with any subject and clauses, run again. -/
theorem updates_follow_merging (target : Fields) {patch next : Fields}
    (hPatch : (Value.object patch).KeysDistinct) (hNext : (Value.object next).KeysDistinct) :
    target.LawfulMerge patch next ∧
    (∀ (store : Store) (path : String), store.LawfulUpdates path patch next) ∧
    ∀ (engine : Engine) (q : Update) (world : World), world.store.Reachable →
      (finishOf (engine.update q) (finishOf (engine.update q) world)).store.documents =
        (finishOf (engine.update q) world).store.documents := by
  refine ⟨Fields.lawfulMerge target hPatch hNext,
    fun store path => store.lawfulUpdates path hPatch hNext, fun engine q world h => ?_⟩
  exact engine.documents_writeSelected_again (Store.writesAs_update (patchOf q.setters))
    h.wellAddressed (Fields.merge_again (keysDistinct_patchOf q.setters))

/-- Fields of one object, added by two patches, and an update that its own
clause no longer selects for. -/
theorem updates_follow_merging_nested :
    let patch : Fields := [("a", .object [("x", .null)])]
    let next : Fields := [("a", .object [("y", .null)])]
    let aging : Update :=
      ⟨⟨"users", .collection⟩, [⟨"age", .equal, .integer 7, false⟩], [⟨"age", .integer 8⟩]⟩
    (Value.object patch).KeysDistinct ∧ (Value.object next).KeysDistinct ∧
      (Value.object patch).MakesRoomFor (.object next) ∧ Store.tied.Reachable ∧
      (Fields.merge [("a", .null)] patch).merge next =
        [("a", .object [("x", .null), ("y", .null)])] ∧
      (finishOf (Store.update "users/a" next)
        (finishOf (Store.update "users/a" patch) Store.tied)).documents =
          (finishOf (Store.update "users/a" (patch.merge next)) Store.tied).documents ∧
      (finishOf (Engine.update {} aging)
        (finishOf (Engine.update {} aging) ⟨Store.tied, .none⟩)).store.documents =
          (finishOf (Engine.update {} aging) ⟨Store.tied, .none⟩).store.documents := by
  intro patch next aging
  have hPatch : (Value.object patch).KeysDistinct := by
    simp [patch, Value.KeysDistinct, Value.FieldsDistinct, Fields.keys]
  have hNext : (Value.object next).KeysDistinct := by
    simp [next, Value.KeysDistinct, Value.FieldsDistinct, Fields.keys]
  have hRoom : (Value.object patch).MakesRoomFor (.object next) := by
    intro path found inner hFound hInner
    rcases path with _ | ⟨name, _ | ⟨below, rest⟩⟩
    · exact ⟨patch, (Option.some.inj hFound).symm⟩
    · rw [Value.follow, Fields.get?_cons] at hFound
      split at hFound
      · exact ⟨_, (Option.some.inj hFound).symm⟩
      · cases hFound
    · rw [Value.follow, Fields.get?_cons] at hInner
      split at hInner
      · rw [Option.bind_some, Value.follow, Fields.get?_cons] at hInner
        split at hInner
        · cases rest <;> cases hInner
        · cases hInner
      · cases hInner
  obtain ⟨hMerge, hUpdates, hAgain⟩ := updates_follow_merging [("a", .null)] hPatch hNext
  refine ⟨hPatch, hNext, hRoom, Store.reachable_tied, ?_, ?_, ?_⟩
  · exact hMerge.together.mp hRoom _ ⟨by decide, trivial, trivial⟩
  · exact ((hUpdates Store.tied "users/a").together hRoom).2.2
  · exact hAgain {} aging ⟨Store.tied, .none⟩ Store.reachable_tied

end Engine

end DocQuery
