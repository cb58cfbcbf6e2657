import DocQuery.Pattern
import DocQuery.Query.Canonical
import DocQuery.Store.Request
/-!
Planning a selection: which clauses and order keys the store evaluates, which are evaluated on the
fetched documents, and how the documents are fetched. A single document is read directly, and then
every clause is local. As soon as one order key is local the whole order is applied again locally,
so that keys keep their precedence from left to right.
-/
namespace DocQuery

/-- What is wrong with a pattern. -/
inductive PatternFault where
  | tooLong
  | notText (found : Literal)

/-- A query that does not fit the store. -/
inductive PlanError where
  | localOnly (property : String) (operator : Operator)
  | notACollection (path : String)
  | notQueryable (path : String)
  | notInsertable (collection : String)
  | invalidPattern (property : String) (fault : PatternFault)

def PatternFault.message : PatternFault → String
  | .tooLong => "pattern too long (max " ++ Nat.repr Pattern.maxLength ++ " chars)"
  | .notText found => "expected a string, found " ++ found.text

def PlanError.message : PlanError → String
  | .localOnly property operator =>
      "Operator '" ++ operator.symbol ++ "' on '" ++ property ++ "' can only be evaluated locally"
  | .notACollection path =>
      "Unsupported subject: '" ++ path ++ "' is a document path, not a collection"
  | .notQueryable path =>
      "Unsupported subject: '" ++ path ++ "' is a document and cannot be queried"
  | .notInsertable collection =>
      "Unsupported subject: cannot insert into '" ++ collection ++ "', it is not a collection path"
  | .invalidPattern property fault =>
      "Invalid 'like' pattern on '" ++ property ++ "': " ++ fault.message

/-- How the documents of a selection are fetched. -/
inductive FetchStrategy where
  /-- One document is read directly. -/
  | document
  /-- One fetch of at most so many documents. -/
  | limited (limit : Nat)
  /-- Batches of a size, each after the one before. -/
  | paged (size : Nat)
  /-- One fetch of everything. -/
  | unbounded
  deriving DecidableEq, Repr

structure Plan where
  subject : Subject
  remoteClauses : List Clause
  localClauses : List Clause
  remoteOrder : List OrderKey
  localOrder : List OrderKey
  strategy : FetchStrategy

namespace Plan

def forDocument (subject : Subject) (clauses : List Clause) : Plan :=
  { subject, remoteClauses := [], localClauses := clauses, remoteOrder := [], localOrder := []
    strategy := .document }

/-- A limit takes precedence over pages. -/
def strategyFor (limit page : Option Nat) : FetchStrategy :=
  match limit, page with
  | some limit, _ => .limited limit
  | none, some size => .paged size
  | none, none => .unbounded

def forMany (subject : Subject) (clauses : List Clause) (order : List OrderKey)
    (limit page : Option Nat) : Plan :=
  { subject
    remoteClauses := clauses.filter fun clause => !clause.isLocal
    localClauses := clauses.filter Clause.isLocal
    remoteOrder := order.filter fun key => !key.isLocal
    localOrder := if order.any OrderKey.isLocal then order else []
    strategy := strategyFor limit page }

/-- The first clause that the store would have to evaluate and cannot. -/
def unsupported? (clauses : List Clause) : Option Clause :=
  clauses.find? fun clause => clause.operator.remote?.isNone

def make (subject : Subject) (clauses : List Clause) (order : List OrderKey)
    (limit page : Option Nat) : Except PlanError Plan :=
  if subject.kind = .document then .ok (forDocument subject clauses)
  else if subject.kind = .collection ∧ Path.isDocument subject.path then
    .error (.notACollection subject.path)
  else
    let plan := forMany subject clauses order limit page
    match unsupported? plan.remoteClauses with
    | some clause => .error (.localOnly clause.property clause.operator)
    | none => .ok plan

/-- The filter that a clause is for the store. -/
def filterOf (clause : Clause) : Except PlanError Filter :=
  match clause.operator.remote? with
  | some operator => .ok ⟨clause.property, operator, clause.value.toValue⟩
  | none => .error (.localOnly clause.property clause.operator)

/-- The scope of a subject; a document has none. -/
def scopeOf (subject : Subject) : Except PlanError Scope :=
  match subject.kind with
  | .collection => .ok (.collection subject.path)
  | .collectionGroup => .ok (.group subject.path)
  | .document => .error (.notQueryable subject.path)

/-- The request with which the store is asked, before a limit or a starting
point is added. -/
def request (plan : Plan) : Except PlanError FetchRequest := do
  let scope ← scopeOf plan.subject
  let filters ← plan.remoteClauses.mapM filterOf
  let orders := plan.remoteOrder.map fun key => ⟨key.property, key.direction⟩
  return { scope, filters, orders }

end Plan

/-- Where a show looks for collections. -/
inductive ShowTarget where
  | root
  | document (path : String)
  | below (plan : Plan)

def Show.target (q : Show) : Except PlanError ShowTarget :=
  match q.subject with
  | none => .ok .root
  | some subject =>
      if subject.kind = .document then .ok (.document subject.path)
      else (Plan.make subject [] [] none none).map .below

def Insert.check (q : Insert) : Except PlanError Unit :=
  if q.collection = "" ∨ Path.isDocument q.collection then
    .error (.notInsertable q.collection)
  else .ok ()

end DocQuery
