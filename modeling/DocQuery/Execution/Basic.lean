import DocQuery.Document.Patch
import DocQuery.Execution.Fetch
import DocQuery.Execution.Outcome
import DocQuery.Grammar.Meaning
import DocQuery.Output.Sink
import DocQuery.Report.Render
/-!
Running statements against a store and a sink. An update or a delete first selects its documents
and then writes to each in turn, going on after a write that failed; every other failure ends the
statement.
-/
namespace DocQuery

/-- The most documents that one selection may fetch if nothing else is said. -/
def standardMaximum : Nat :=
  100000

/-- The maximum for work by hand on large stores. -/
def strictMaximum : Nat :=
  10000

/-- The maximum for exports of whole stores. -/
def relaxedMaximum : Nat :=
  1000000

/-- How statements are run: how many documents a selection may fetch, and in
which format results are written if an output clause names none. -/
structure Engine where
  maximum : Nat := standardMaximum
  format : Format := .json
  deriving DecidableEq, Repr

structure World where
  store : Store
  sink : Sink

/-- A statement at work. Whatever was done before a failure stays done. -/
abbrev Run (α : Type) := ExceptT QueryError (StateM World) α

namespace Run

def onStore (access : Access α) : Run α :=
  ExceptT.mk fun world =>
    match access.run.run world.store with
    | (result, store) => (result, { world with store })

def deliver (destination : Destination) (text : String) : Run String :=
  ExceptT.mk fun world =>
    match world.sink.deliver destination text with
    | (sink, result) => (result.mapError QueryError.output, { world with sink })

end Run

def Select.plan (q : Select) : Except PlanError Plan :=
  Plan.make q.subject q.clauses q.order q.limit q.page

/-- The plan of the documents that an update changes. -/
def Update.plan (q : Update) : Except PlanError Plan :=
  Plan.make q.subject q.clauses [] none none

/-- The plan of the documents that a delete removes. -/
def Delete.plan (q : Delete) : Except PlanError Plan :=
  Plan.make q.subject q.clauses [] none none

namespace Store

/-- Writes to each of the documents in turn and counts the writes. The paths
whose write failed are collected and the others are not affected. -/
def writeEach (write : String → StoreM Unit) : List Document → StateM Store (Nat × List String)
  | [] => return (0, [])
  | document :: rest => do
      let result ← (write document.path).run
      let (count, failed) ← writeEach write rest
      match result with
      | .ok () => return (count + 1, failed)
      | .error _ => return (count, document.path :: failed)

/-- The collections directly below any of the documents. -/
def collectionsBelow (documents : List Document) : StoreM (List String) := do
  let names ← documents.mapM fun document => listCollections (some document.path)
  return sortNames names.flatten

end Store

namespace Engine

/-- Hands over the result of a select: to the sink if the output clause names a
destination, else to the caller. -/
def output (engine : Engine) (clause : Option OutputClause) (count : Nat) (result : ResultSet) :
    Run Outcome :=
  match clause with
  | none => return .documents result.toValue
  | some clause =>
      let format := clause.format.getD engine.format
      match clause.kind, format with
      | .inline, .json => return .documents result.toValue
      | .inline, .csv => return .table result.csv
      | .clipboard, _ =>
          return .saved count (← Run.deliver .clipboard (result.render format))
      | .path, _ => do
          let destination := Destination.path (clause.destination.getD "")
          return .saved count (← Run.deliver destination (result.render format))

def select (engine : Engine) (q : Select) : Run Outcome := do
  let documents ← Run.onStore do (← Access.planned q.plan).select engine.maximum
  engine.output q.output documents.length (arrange q.projection q.group q.aggregate documents)

def writeSelected (engine : Engine) (plan : Except PlanError Plan)
    (write : String → StoreM Unit) : Run Outcome :=
  Run.onStore do
    let documents ← (← Access.planned plan).select engine.maximum
    let (count, failed) ← Store.writeEach write documents
    return .written count failed

def update (engine : Engine) (q : Update) : Run Outcome :=
  engine.writeSelected q.plan fun path => Store.update path (patchOf q.setters)

def delete (engine : Engine) (q : Delete) : Run Outcome :=
  engine.writeSelected q.plan Store.delete

def insert (q : Insert) : Run Outcome :=
  Run.onStore do
    Access.planned q.check
    let _ ← Access.call (Store.create q.collection q.identifier (patchOf q.setters))
    return .written 1 []

def showCollections (engine : Engine) (q : Show) : Run Outcome :=
  Run.onStore do
    match ← Access.planned q.target with
    | .root => return .collections (← Access.call (Store.listCollections none))
    | .document path => return .collections (← Access.call (Store.listCollections (some path)))
    | .below plan =>
        let documents ← plan.fetch engine.maximum
        return .collections (← Access.call (Store.collectionsBelow documents))

def execute (engine : Engine) : Query → Run Outcome
  | .select q => engine.select q
  | .update q => engine.update q
  | .delete q => engine.delete q
  | .insert q => insert q
  | .show q => engine.showCollections q

/-- Reads a statement and runs it. -/
def run (engine : Engine) (text : String) : Run Outcome :=
  match Query.ofText text with
  | .ok query => engine.execute query
  | .error error => throw (.malformed error)

end Engine

end DocQuery
