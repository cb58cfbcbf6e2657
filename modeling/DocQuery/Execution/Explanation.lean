import DocQuery.Execution.Basic
/-!
Explanations of statements: which clauses and order keys go to the store, which are evaluated on
the fetched documents, and how the documents are fetched. Explaining a statement does not need a
store.
-/
namespace DocQuery

/-- What may surprise in the result of a statement. -/
inductive Warning where
  | limitBeforeFilter (limit : Nat)
  | limitBeforeSort (limit : Nat)
  | wholeScope
  deriving DecidableEq, Repr

def Warning.message : Warning → String
  | .limitBeforeFilter limit => "limit " ++ Nat.repr limit ++
      " applies before local filtering; fewer records may be returned"
  | .limitBeforeSort limit => "limit " ++ Nat.repr limit ++
      " applies before local sorting; only the fetched records are sorted"
  | .wholeScope => "every filter is local; the whole scope is fetched"

def Plan.warnings (plan : Plan) : List Warning :=
  match plan.strategy with
  | .limited limit =>
      (if plan.localClauses.isEmpty then [] else [.limitBeforeFilter limit]) ++
        (if plan.localOrder.isEmpty then [] else [.limitBeforeSort limit])
  | .unbounded =>
      if !plan.localClauses.isEmpty && plan.remoteClauses.isEmpty then [.wholeScope] else []
  | .document => []
  | .paged _ => []

/-- How a statement would run. -/
structure Explanation where
  keyword : String
  subject : Option String
  subjectKind : SubjectKind
  remoteClauses : List Clause
  localClauses : List Clause
  remoteOrder : List OrderKey
  localOrder : List OrderKey
  /-- Nothing for statements that select no documents. -/
  strategy : Option FetchStrategy
  warnings : List Warning

namespace Explanation

/-- The explanation of a statement with the plan of the documents it selects, if
any. -/
def ofPlan (query : Query) (plan : Option Plan) : Explanation where
  keyword := query.keyword
  subject := query.subjectPath?
  subjectKind := query.subjectKind
  remoteClauses := (plan.map Plan.remoteClauses).getD []
  localClauses := (plan.map Plan.localClauses).getD []
  remoteOrder := (plan.map Plan.remoteOrder).getD []
  localOrder := (plan.map Plan.localOrder).getD []
  strategy := plan.map Plan.strategy
  warnings := (plan.map Plan.warnings).getD []

end Explanation

/-- The plan of the documents that a statement selects, if it selects any. -/
def Query.plan? : Query → Except PlanError (Option Plan)
  | .select q => return some (← q.plan)
  | .update q => return some (← q.plan)
  | .delete q => return some (← q.plan)
  | .insert q => do
      q.check
      return none
  | .show q => do
      match ← q.target with
      | .below plan => return some plan
      | .root => return none
      | .document _ => return none

def Query.explain (query : Query) : Except PlanError Explanation := do
  let plan ← query.plan?
  checkClauses ((plan.map Plan.localClauses).getD [])
  return .ofPlan query plan

/-- Reads a statement and explains it. -/
def explain (text : String) : Except QueryError Explanation :=
  match Query.ofText text with
  | .ok query => query.explain.mapError .unplannable
  | .error error => .error (.malformed error)

end DocQuery
