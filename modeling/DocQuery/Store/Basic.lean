import DocQuery.Document.Merge
import DocQuery.Store.Documents
import DocQuery.Store.Request
/-!
The store: documents by path, with a record of the calls made to it. It can be taken offline, and
writes to single paths can be made to fail. Every call is counted first, also one that fails, and
only a fetch that was answered enters the history.
-/
namespace DocQuery

/-- Why a request is not one the store can serve. -/
inductive Rejection where
  | notADocument (path : String)
  | notAnObject (path : String)
  | notACollection (path : String)
  | identifier (id : String)
  deriving DecidableEq, Repr

/-- Why the store cannot serve any request, or a write. -/
inductive Outage where
  | offline
  | write (path : String)
  deriving DecidableEq, Repr

inductive StoreError where
  | notFound (path : String)
  | alreadyExists (path : String)
  | rejected (reason : Rejection)
  | unavailable (reason : Outage)
  deriving DecidableEq, Repr

def Rejection.message : Rejection → String
  | .notADocument path => "'" ++ path ++ "' is not a document path"
  | .notAnObject path => "document at '" ++ path ++ "' must be an object"
  | .notACollection path => "'" ++ path ++ "' is not a collection path"
  | .identifier id => "invalid document id '" ++ id ++ "'"

def Outage.message : Outage → String
  | .offline => "in-memory store is offline"
  | .write path => "write to '" ++ path ++ "' failed"

def StoreError.message : StoreError → String
  | .notFound path => "Document not found: " ++ path
  | .alreadyExists path => "Document already exists: " ++ path
  | .rejected reason => "Request rejected: " ++ reason.message
  | .unavailable reason => "Store unavailable: " ++ reason.message

structure Calls where
  fetches : Nat
  gets : Nat
  updates : Nat
  deletes : Nat
  creates : Nat
  deriving DecidableEq, Repr

/-- A fetch that was answered and the number of documents in the answer. -/
structure Fetched where
  request : FetchRequest
  returned : Nat
  deriving Repr

/-- The identifiers given to documents created without one, by the number of the
creation. -/
structure IdSource where
  id : Nat → String
  usable : ∀ n, id n ≠ "" ∧ '/' ∉ (id n).toList

/-- A number in at least so many decimal digits. -/
def paddedDigits (width n : Nat) : List Char :=
  let digits := Nat.toDigits 10 n
  List.replicate (width - digits.length) '0' ++ digits

theorem isDigit_of_mem_paddedDigits {width n : Nat} {c : Char}
    (h : c ∈ paddedDigits width n) : c.isDigit = true := by
  rcases List.mem_append.mp h with hZero | hDigit
  · rw [List.eq_of_mem_replicate hZero]
    decide
  · exact Nat.isDigit_of_mem_toDigits (by decide) (by decide) hDigit

/-- The number of the creation in thirty-two digits. -/
def IdSource.counting : IdSource where
  id n := String.ofList (paddedDigits 32 n)
  usable n := by
    constructor
    · intro hEmpty
      have hNil : paddedDigits 32 n = [] := by
        simpa using congrArg String.toList hEmpty
      exact Nat.toDigits_ne_nil (List.append_eq_nil_iff.mp hNil).2
    · rw [String.toList_ofList]
      intro hSlash
      exact absurd (isDigit_of_mem_paddedDigits hSlash) (by decide)

structure Store where
  documents : Documents
  failing : List String
  offline : Bool
  calls : Calls
  history : List Fetched
  ids : IdSource

/-- A call to the store: it may fail, and it leaves the store changed either
way. -/
abbrev StoreM (α : Type) := ExceptT StoreError (StateM Store) α

namespace Store

/-- A store without documents, online, to which no call was made yet. -/
def empty : Store where
  documents := .empty
  failing := []
  offline := false
  calls := ⟨0, 0, 0, 0, 0⟩
  history := []
  ids := .counting

/-- The fields stored at a path, slashes around it apart. -/
def document? (store : Store) (path : String) : Option Fields :=
  store.documents.get? (Path.trim path)

/-- The store with writes to a path failing. -/
def failWritesTo (store : Store) (path : String) : Store :=
  { store with failing := store.failing ++ [Path.trim path] }

def setOffline (store : Store) (offline : Bool) : Store :=
  { store with offline }

/-- Stores a document at a path, in place of any other there. This is how a
store is filled; it is not counted and works offline too. -/
def put (path : String) (value : Value) : StoreM Unit := do
  let path := Path.trim path
  if !Path.isDocument path then throw (.rejected (.notADocument path))
  match value with
  | .object fields =>
      modify fun store => { store with documents := store.documents.put path fields }
  | _ => throw (.rejected (.notAnObject path))

/-- The identifier of the document that fills a place of a collection: `doc` and
at least four digits. -/
def seedId (place : Nat) : String :=
  "doc" ++ String.ofList (paddedDigits 4 place)

/-- Stores documents in a collection from a place on. -/
def seedFrom (collection : String) : Nat → List Value → StoreM Unit
  | _, [] => return
  | place, value :: rest => do
      put (Path.child (Path.trim collection) (seedId place)) value
      seedFrom collection (place + 1) rest

/-- Stores documents in a collection, numbered from zero. -/
def seed (collection : String) (values : List Value) : StoreM Unit :=
  seedFrom collection 0 values

def count (call : Calls → Calls) : StoreM Unit :=
  modify fun store => { store with calls := call store.calls }

def requireOnline : StoreM Unit := do
  if (← get).offline then throw (.unavailable .offline)

def requireWritable (path : String) : StoreM Unit := do
  requireOnline
  if (← get).failing.contains path then throw (.unavailable (.write path))

/-- The documents that a request asks for. -/
def fetch (request : FetchRequest) : StoreM (List Document) := do
  count fun calls => { calls with fetches := calls.fetches + 1 }
  requireOnline
  let found := request.answer (← get).documents.toList
  modify fun store => { store with history := store.history ++ [⟨request, found.length⟩] }
  return found

def getDocument (path : String) : StoreM (Option Document) := do
  count fun calls => { calls with gets := calls.gets + 1 }
  requireOnline
  let path := Path.trim path
  return ((← get).documents.get? path).map fun fields => ⟨path, fields⟩

/-- Merges a patch into the document at a path, which has to exist. -/
def update (path : String) (patch : Fields) : StoreM Unit := do
  count fun calls => { calls with updates := calls.updates + 1 }
  let path := Path.trim path
  requireWritable path
  match (← get).documents.get? path with
  | none => throw (.notFound path)
  | some fields => modify fun store =>
      { store with documents := store.documents.put path (fields.merge patch) }

/-- Removes the document at a path; there need not be one. -/
def delete (path : String) : StoreM Unit := do
  count fun calls => { calls with deletes := calls.deletes + 1 }
  let path := Path.trim path
  requireWritable path
  modify fun store => { store with documents := store.documents.remove path }

def isCollection (path : String) : Bool :=
  path ≠ "" && !Path.isDocument path

/-- The identifier of a document to be created: the one that was asked for if it
can be one name of a path, or the next of the store's own. -/
def chooseId (id : Option String) : StoreM String := do
  match id with
  | none =>
      let store ← get
      return store.ids.id store.calls.creates
  | some id =>
      if id = "" ∨ '/' ∈ id.toList then throw (.rejected (.identifier id)) else return id

/-- Creates a document in a collection and gives its path. There must be none
yet. -/
def create (collection : String) (id : Option String) (fields : Fields) : StoreM String := do
  count fun calls => { calls with creates := calls.creates + 1 }
  requireOnline
  let collection := Path.trim collection
  if !isCollection collection then throw (.rejected (.notACollection collection))
  let path := Path.child collection (← chooseId id)
  requireWritable path
  if (← get).documents.contains path then throw (.alreadyExists path)
  modify fun store => { store with documents := store.documents.put path fields }
  return path

/-- The text after a beginning, if a text has that beginning. -/
def after? (beginning text : String) : Option String :=
  if beginning.toList.isPrefixOf text.toList then
    some (String.ofList (text.toList.drop beginning.toList.length))
  else none

/-- A name put in its place among names in ascending order, once. -/
def insertName (name : String) : List String → List String
  | [] => [name]
  | first :: rest =>
      if name < first then name :: first :: rest
      else if name = first then first :: rest
      else first :: insertName name rest

/-- Names in ascending order, each once. -/
def sortNames (names : List String) : List String :=
  names.foldr insertName []

/-- The names that follow a beginning in the paths of documents. -/
def namesBelow (documents : List Document) (beginning : String) : List String :=
  sortNames ((documents.filterMap fun document =>
    (after? beginning document.path).bind fun rest => (Path.segments rest).head?).filter (· ≠ ""))

/-- The names of the collections directly below a document, or at the root, in
ascending order. -/
def listCollections (parent : Option String) : StoreM (List String) := do
  requireOnline
  let beginning := match parent with
    | none => ""
    | some path => Path.trim path ++ "/"
  return namesBelow (← get).documents.toList beginning

end Store

end DocQuery
