import DocQuery.Execution.Error
import DocQuery.Selection.Arrangement
import DocQuery.Selection.Local
/-!
Selecting documents from the store. The patterns of the local clauses are checked before the store
is asked; then the documents are fetched as planned, filtered by the local clauses and sorted by
the local order. A selection never fetches more documents than it is allowed to.
-/
namespace DocQuery

/-- Work on the store, which may fail like any part of running a statement. -/
abbrev Access (α : Type) := ExceptT QueryError (StateM Store) α

namespace Access

def call (call : StoreM α) : Access α :=
  ExceptT.adapt QueryError.store call

def planned (result : Except PlanError α) : Access α :=
  ExceptT.mk (pure (result.mapError QueryError.unplannable))

/-- Fails if more documents were fetched than allowed. -/
def requireAtMost (maximum fetched : Nat) : Access Unit :=
  if maximum < fetched then throw (.tooMany fetched maximum) else return

end Access

namespace Plan

/-- Fetches batches of a size until one is not full, each after the last
document so far, and gives them all together. Since full batches of at least one
document run out at some time, as many attempts as there are documents and one
more are enough. -/
def fetchBatches (request : FetchRequest) (size maximum : Nat) :
    Nat → List Document → Access (List Document)
  | 0, found => return found
  | attempts + 1, found => do
      let batch ← Access.call (Store.fetch
        { request with limit := some size, startAfter := found.getLast? })
      let found := found ++ batch
      Access.requireAtMost maximum found.length
      if batch.length < size then return found
      else fetchBatches request size maximum attempts found

def fetchAll (request : FetchRequest) (maximum : Nat) : Access (List Document) := do
  let found ← Access.call (Store.fetch request)
  Access.requireAtMost maximum found.length
  return found

/-- Fetches the documents of a plan, before any local clause applies. -/
def fetch (plan : Plan) (maximum : Nat) : Access (List Document) := do
  match plan.strategy with
  | .document =>
      return (← Access.call (Store.getDocument plan.subject.path)).toList
  | .limited limit =>
      fetchAll { ← Access.planned plan.request with limit := some limit } maximum
  | .unbounded =>
      fetchAll (← Access.planned plan.request) maximum
  | .paged size =>
      let request ← Access.planned plan.request
      fetchBatches request size maximum ((← get).documents.size + 1) []

def select (plan : Plan) (maximum : Nat) : Access (List Document) := do
  Access.planned (checkClauses plan.localClauses)
  let found ← plan.fetch maximum
  return sortDocuments plan.localOrder (filterDocuments plan.localClauses found)

end Plan

end DocQuery
