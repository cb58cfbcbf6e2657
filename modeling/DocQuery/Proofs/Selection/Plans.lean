import DocQuery.Execution.Basic
import DocQuery.Proofs.Query.WellFormed
import DocQuery.Proofs.Selection.Batches

/-! What is known of a selection that could be planned: which plan it is, and
which request the plan sends to the store. -/
namespace DocQuery

namespace Plan

variable {plan : Plan} {subject : Subject} {clauses : List Clause} {order : List OrderKey}
  {limit page : Option Nat} {request : FetchRequest}

/-- The two kinds of plans there are. -/
theorem make_eq_ok (h : make subject clauses order limit page = .ok plan) :
    plan = forDocument subject clauses ∨
      plan = forMany subject clauses order limit page ∧ ∃ request, plan.request = .ok request := by
  by_cases hKind : subject.kind = .document
  · rw [make, if_pos hKind] at h
    exact Or.inl (Except.ok.inj h).symm
  · obtain ⟨rfl, hSupported⟩ := eq_forMany_of_make hKind h
    obtain ⟨scope, filters, _, _, hRequest⟩ := exists_request order hKind hSupported
    exact Or.inr ⟨rfl, _, hRequest limit page⟩

/-- A plan that can be carried out: it reads one document, or it has a
request. -/
def Ready (plan : Plan) : Prop :=
  plan.strategy = .document ∨ ∃ request, plan.request = .ok request

/-- A plan that is made can be carried out. -/
theorem ready_of_make (h : make subject clauses order limit page = .ok plan) : plan.Ready := by
  rcases make_eq_ok h with rfl | ⟨_, hRequest⟩
  · exact Or.inl rfl
  · exact Or.inr hRequest

theorem subject_of_make (h : make subject clauses order limit page = .ok plan) :
    plan.subject = subject := by
  rcases make_eq_ok h with rfl | ⟨rfl, _⟩
  · rfl
  · rfl

/-- There are pages in a plan if they were asked for. -/
theorem page_of_make (h : make subject clauses order limit page = .ok plan) {size : Nat}
    (hPaged : plan.strategy = .paged size) : page = some size := by
  rcases make_eq_ok h with rfl | ⟨rfl, _⟩
  · cases hPaged
  · cases limit with
    | some limit => cases hPaged
    | none =>
        cases page with
        | none => cases hPaged
        | some page =>
            obtain rfl := FetchStrategy.paged.inj hPaged
            rfl

/-- A request has the scope, the filters and the order of its plan, and no
bounds yet. -/
theorem request_eq_ok (h : plan.request = .ok request) :
    scopeOf plan.subject = .ok request.scope ∧
      plan.remoteClauses.mapM filterOf = .ok request.filters ∧
      request.orders = plan.remoteOrder.map (fun key => ⟨key.property, key.direction⟩) ∧
      request.limit = none ∧ request.startAfter = none := by
  obtain ⟨scope, hScope, h⟩ := Grammar.passed h
  obtain ⟨filters, hFilters, h⟩ := Grammar.passed h
  obtain rfl := Except.ok.inj h
  exact ⟨hScope, hFilters, rfl, rfl, rfl⟩

/-- A selection as statements begin with it. -/
def selecting (plan : Except PlanError Plan) (maximum : Nat) : Access (List Document) := do
  (← Access.planned plan).select maximum

end Plan

/-- A statement that writes is one piece of work on the store. -/
theorem Engine.writeSelected_eq (engine : Engine) (made : Except PlanError Plan)
    (write : String → StoreM Unit) :
    engine.writeSelected made write =
      Run.onStore (Plan.selecting made engine.maximum >>= fun documents => do
        let (count, failed) ← Store.writeEach write documents
        return .written count failed) := by
  rw [writeSelected, Plan.selecting, bind_assoc]

end DocQuery
