import DocQuery.Proofs.Selection.Ordering
import DocQuery.Proofs.Store.Writes

/-! What a select without an order shows. Every stored document is picked or
left out by itself, so the same select picks the same documents from any other
store in which they are stored. -/
namespace DocQuery

/-- The select of all documents of a subject that pass the clauses. -/
def Select.every (subject : Subject) (clauses : List Clause) : Select where
  subject := subject
  clauses := clauses
  projection := .all
  limit := none
  page := none
  order := []
  group := none
  aggregate := none
  output := none

section Picks

/-- What a selection gives from any store: the stored documents that are picked,
each once, if the store is online and not too many are fetched. -/
structure Picks (selection : Access (List Document)) (maximum : Nat)
    (fetched picked : Document → Bool) : Prop where
  of_ok : ∀ {store : Store} {documents : List Document},
    resultOf selection store = .ok documents →
    store.offline = false ∧ (store.documents.toList.filter fetched).length ≤ maximum ∧
      (documents.map Document.path).Nodup ∧
      ∀ document, document ∈ documents ↔
        document ∈ store.documents.toList ∧ picked document = true
  exists_ok : ∀ {store : Store}, store.offline = false →
    (store.documents.toList.filter fetched).length ≤ maximum →
    ∃ documents, resultOf selection store = .ok documents

variable {maximum : Nat} {plan : Plan} {fetched picked : Document → Bool}

/-- Whether a selection picks depends on its results alone. -/
theorem Picks.congr {first second : Access (List Document)}
    (h : Picks first maximum fetched picked)
    (hSame : ∀ store, resultOf second store = resultOf first store) :
    Picks second maximum fetched picked := by
  constructor
  · intro store documents hOk
    exact h.of_ok ((hSame store).symm.trans hOk)
  · intro store hOnline hMaximum
    obtain ⟨documents, hOk⟩ := h.exists_ok hOnline hMaximum
    exact ⟨documents, (hSame store).trans hOk⟩

/-- Once all documents of a selection are gone, and no others, nothing is
selected any more: there are fewer documents to fetch, and those that are left
are not picked. -/
theorem Picks.resultOf_rest {selection : Access (List Document)}
    (h : Picks selection maximum fetched picked) {store rest : Store} {documents : List Document}
    (hOk : resultOf selection store = .ok documents) (hOffline : rest.offline = store.offline)
    (hRest : rest.documents.toList = store.documents.toList.filter fun document =>
      document.path ∉ documents.map Document.path) :
    resultOf selection rest = .ok [] := by
  obtain ⟨hOnline, hMaximum, _, hPicked⟩ := h.of_ok hOk
  have hFewer : (rest.documents.toList.filter fetched).length ≤ maximum := by
    rw [hRest]
    exact Nat.le_trans (List.filter_sublist.filter fetched).length_le hMaximum
  obtain ⟨others, hOthers⟩ := h.exists_ok (hOffline.trans hOnline) hFewer
  have hEmpty : others = [] := by
    apply List.eq_nil_iff_forall_not_mem.mpr
    intro document hDocument
    obtain ⟨hHere, hPick⟩ := ((h.of_ok hOthers).2.2.2 document).mp hDocument
    rw [hRest, List.mem_filter] at hHere
    have hSelected := (hPicked document).mpr ⟨hHere.1, hPick⟩
    exact of_decide_eq_true hHere.2 (List.mem_map_of_mem hSelected)
  rw [hOthers, hEmpty]

/-- The local clauses pick some of what a plan fetches. -/
theorem Picks.select (h : Picks (plan.fetch maximum) maximum fetched picked)
    (hCheck : checkClauses plan.localClauses = .ok ()) :
    Picks (plan.select maximum) maximum fetched fun document => picked document &&
      plan.localClauses.all fun clause => clause.holds document.fields.flatten := by
  constructor
  · intro store documents hOk
    obtain ⟨_, found, hFetch, rfl⟩ := Plan.select_eq_ok hOk
    obtain ⟨hOnline, hMaximum, hPaths, hFound⟩ := h.of_ok hFetch
    refine ⟨hOnline, hMaximum, ?_, ?_⟩
    · rw [List.Nodup, List.pairwise_map] at hPaths ⊢
      exact (hPaths.filter _).perm (List.mergeSort_perm _ _).symm Ne.symm
    · intro document
      unfold sortDocuments
      rw [List.mem_mergeSort, filterDocuments, List.mem_filter, hFound, Bool.and_eq_true, and_assoc]
  · intro store hOnline hMaximum
    obtain ⟨found, hFetch⟩ := h.exists_ok hOnline hMaximum
    rw [(Plan.leads_select hCheck (leads_of (plan.fetch maximum) store)).resultOf_eq, hFetch]
    exact ⟨_, rfl⟩

/-- A request without bounds fetches all that it selects. -/
theorem Plan.picks_fetch_unbounded {request : FetchRequest} (hRequest : plan.request = .ok request)
    (hLimit : request.limit = none) (hStart : request.startAfter = none)
    (hStrategy : plan.strategy = .unbounded) (maximum : Nat) :
    Picks (plan.fetch maximum) maximum request.selects request.selects := by
  have hIff (store : Store) (found : List Document) := @fetch_unbounded_eq_ok_iff request plan
    maximum store hRequest hLimit hStart hStrategy found
  constructor
  · intro store documents hOk
    obtain ⟨hOnline, hMaximum, rfl⟩ := (hIff store documents).mp hOk
    refine ⟨hOnline, hMaximum, ?_, fun document => request.mem_ranked _ document⟩
    rw [List.Nodup, List.pairwise_map]
    exact request.distinct_ranked store.documents.paths_distinct
  · intro store hOnline hMaximum
    exact ⟨_, (hIff store _).mpr ⟨hOnline, hMaximum, rfl⟩⟩

/-- A document is fetched by its path, and may be missing. -/
theorem Plan.leads_fetch_document (hStrategy : plan.strategy = .document) (maximum : Nat)
    {store : Store} (hOnline : store.offline = false) :
    Leads (plan.fetch maximum) store
      (.ok ((store.documents.get? (Path.trim plan.subject.path)).map
        (Document.mk (Path.trim plan.subject.path))).toList)
      (store.counted fun calls => { calls with gets := calls.gets + 1 }) := by
  rw [fetch, hStrategy]
  exact (Store.leads_getDocument hOnline plan.subject.path).call.bind (leads_pure _ _)

theorem Plan.resultOf_fetch_document_of_offline (hStrategy : plan.strategy = .document)
    (maximum : Nat) {store : Store} (hOffline : store.offline = true) :
    resultOf (plan.fetch maximum) store = .error (.store (.unavailable .offline)) := by
  rw [fetch, hStrategy]
  have hGet := (Store.leads_getDocument_of_offline hOffline plan.subject.path).call
  exact hGet.bind_error.resultOf_eq

/-- A document that is read directly does not count against the maximum. -/
theorem Plan.picks_fetch_document (hStrategy : plan.strategy = .document) (maximum : Nat) :
    Picks (plan.fetch maximum) maximum (fun _ => false) fun document =>
      document.path == Path.trim plan.subject.path := by
  constructor
  · intro store documents hOk
    cases hOnline : store.offline with
    | true =>
        rw [resultOf_fetch_document_of_offline hStrategy maximum hOnline] at hOk
        cases hOk
    | false =>
        rw [(leads_fetch_document hStrategy maximum hOnline).resultOf_eq] at hOk
        obtain rfl := Except.ok.inj hOk
        refine ⟨rfl, by simp, ?_, ?_⟩
        · cases store.documents.get? (Path.trim plan.subject.path) with
          | none => exact List.nodup_nil
          | some fields => exact List.nodup_singleton _
        · intro document
          rw [Option.mem_toList, Option.map_eq_some_iff, beq_iff_eq]
          constructor
          · rintro ⟨fields, hGet, rfl⟩
            exact ⟨Documents.mem_of_get? hGet, rfl⟩
          · rintro ⟨hStored, hPath⟩
            rw [← hPath]
            exact ⟨document.fields, Documents.get?_of_mem hStored, rfl⟩
  · intro store hOnline _
    exact ⟨_, (leads_fetch_document hStrategy maximum hOnline).resultOf_eq⟩

theorem Select.resultOf_selection {q : Select} (h : q.plan = .ok plan) (maximum : Nat)
    (store : Store) :
    resultOf (q.selection maximum) store = resultOf (plan.select maximum) store :=
  ((leads_planned h store).bind (leads_of (plan.select maximum) store)).resultOf_eq

/-- Every selection that succeeds picks documents of the store, whatever its
subject. -/
theorem Select.exists_picks {subject : Subject} {clauses : List Clause} {store : Store}
    {documents : List Document}
    (h : resultOf ((every subject clauses).selection maximum) store = .ok documents) :
    ∃ fetched picked, Picks ((every subject clauses).selection maximum) maximum fetched picked := by
  cases hPlan : (every subject clauses).plan with
  | error fault =>
      rw [selection, hPlan] at h
      cases h
  | ok plan =>
      have hSelection := Select.resultOf_selection hPlan maximum
      have hPicks {fetched picked : Document → Bool}
          (hFetch : Picks (plan.fetch maximum) maximum fetched picked) : ∃ fetched picked,
            Picks ((every subject clauses).selection maximum) maximum fetched picked := by
        cases hCheck : checkClauses plan.localClauses with
        | error fault =>
            rw [hSelection, (Plan.leads_select_of_unchecked hCheck maximum store).resultOf_eq] at h
            cases h
        | ok _ => exact ⟨_, _, (hFetch.select hCheck).congr hSelection⟩
      by_cases hKind : subject.kind = .document
      · have hDocument : plan = Plan.forDocument subject clauses := by
          rw [Select.plan, every, Plan.make, if_pos hKind] at hPlan
          exact (Except.ok.inj hPlan).symm
        subst hDocument
        exact hPicks (Plan.picks_fetch_document rfl maximum)
      · obtain ⟨rfl, hSupported⟩ := Plan.eq_forMany_of_make hKind hPlan
        obtain ⟨scope, filters, _, _, hRequest⟩ := Plan.exists_request [] hKind hSupported
        exact hPicks (Plan.picks_fetch_unbounded (hRequest none none) rfl rfl rfl maximum)

end Picks

end DocQuery
