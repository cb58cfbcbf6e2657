import DocQuery.Query.Basic
import DocQuery.Store.Document
import DocQuery.Value.Order
/-!
What can be asked of the store: the documents of a scope that pass every filter and have every
ordered field, in order, from behind a given document on and up to a limit. The order is that of
the ordered fields and then of the paths, so no two documents are at the same place.
-/
namespace DocQuery

/-- Where a request looks for documents. -/
inductive Scope where
  /-- Directly inside the collection at a path. -/
  | collection (path : String)
  /-- In every collection of a name, at any depth. -/
  | group (name : String)
  deriving DecidableEq, Repr

/-- The path or name of a scope as it was given. -/
def Scope.label : Scope → String
  | .collection text => text
  | .group text => text

/-- Whether the document at a path is in a scope. -/
def Scope.contains (scope : Scope) (path : String) : Bool :=
  match Path.parent? path with
  | none => false
  | some parent =>
      match scope with
      | .collection wanted => parent == Path.trim wanted
      | .group wanted => Path.name parent == wanted && Path.isDocument path

/-- The comparisons that the store itself evaluates. -/
inductive RemoteOperator where
  | equal
  | notEqual
  | lessThan
  | lessThanOrEqual
  | greaterThan
  | greaterThanOrEqual
  | isIn
  | notIn
  | arrayContains
  | arrayContainsAny
  deriving DecidableEq, Repr

def RemoteOperator.symbol : RemoteOperator → String
  | .equal => "=="
  | .notEqual => "!="
  | .lessThan => "<"
  | .lessThanOrEqual => "<="
  | .greaterThan => ">"
  | .greaterThanOrEqual => ">="
  | .isIn => "in"
  | .notIn => "not-in"
  | .arrayContains => "array_contains"
  | .arrayContainsAny => "array_contains_any"

/-- The store's counterpart of an operator; `like` has none. -/
def Operator.remote? : Operator → Option RemoteOperator
  | .equal => some .equal
  | .notEqual => some .notEqual
  | .lessThan => some .lessThan
  | .lessThanOrEqual => some .lessThanOrEqual
  | .greaterThan => some .greaterThan
  | .greaterThanOrEqual => some .greaterThanOrEqual
  | .isIn => some .isIn
  | .notIn => some .notIn
  | .arrayContains => some .arrayContains
  | .arrayContainsAny => some .arrayContainsAny
  | .like => none

structure Filter where
  field : String
  operator : RemoteOperator
  value : Value
  deriving Repr

/-- Whether the value of a field passes a filter. Of `array_contains_any` one
wanted item is enough, and `not_in` asks for an array to be outside of. -/
def Filter.passes (filter : Filter) (actual : Value) : Bool :=
  let ordering := actual.orderInType? filter.value
  match filter.operator with
  | .equal => actual.equal filter.value
  | .notEqual => !actual.equal filter.value
  | .lessThan => ordering == some .lt
  | .lessThanOrEqual => ordering == some .lt || ordering == some .eq
  | .greaterThan => ordering == some .gt
  | .greaterThanOrEqual => ordering == some .gt || ordering == some .eq
  | .isIn =>
      match filter.value.items? with
      | some options => Value.isIn options actual
      | none => false
  | .notIn =>
      match filter.value.items? with
      | some options => !Value.isIn options actual
      | none => false
  | .arrayContains =>
      match actual.items? with
      | some items => Value.isIn items filter.value
      | none => false
  | .arrayContainsAny =>
      match actual.items?, filter.value.items? with
      | some items, some wanted => wanted.any (Value.isIn items)
      | _, _ => false

/-- Whether a document passes a filter. Without the field it never does. -/
def Filter.holds (filter : Filter) (fields : Fields) : Bool :=
  match fields.field? filter.field with
  | some actual => filter.passes actual
  | none => false

/-- A field that orders documents. -/
structure FieldOrder where
  field : String
  direction : Direction
  deriving DecidableEq, Repr

/-- The order of two documents by one field; a missing field counts as null. -/
def FieldOrder.compare (order : FieldOrder) (a b : Document) : Ordering :=
  let key (document : Document) : Value := (document.fields.field? order.field).getD .null
  match order.direction with
  | .asc => (key a).order (key b)
  | .desc => (key b).order (key a)

/-- The order of two documents: the first field that tells them apart decides,
else their paths. -/
def comparePlaces (orders : List FieldOrder) (a b : Document) : Ordering :=
  match orders with
  | [] => Ord.compare a.path b.path
  | order :: rest => (order.compare a b).then (comparePlaces rest a b)

structure FetchRequest where
  scope : Scope
  filters : List Filter := []
  orders : List FieldOrder := []
  limit : Option Nat := none
  startAfter : Option Document := none
  deriving Repr

namespace FetchRequest

/-- Whether a document is among those asked for, its place in the order
apart. -/
def selects (request : FetchRequest) (document : Document) : Bool :=
  request.scope.contains document.path &&
    request.filters.all (fun filter => filter.holds document.fields) &&
    request.orders.all fun order => (document.fields.field? order.field).isSome

/-- The documents asked for in order, before the limit and the starting point
apply. -/
def ranked (request : FetchRequest) (documents : List Document) : List Document :=
  (documents.filter request.selects).mergeSort fun a b =>
    (comparePlaces request.orders a b).isLE

/-- Those of the documents in order that come strictly after the starting
point. -/
def resume (request : FetchRequest) (documents : List Document) : List Document :=
  match request.startAfter with
  | none => documents
  | some start => documents.filter fun document =>
      comparePlaces request.orders document start == .gt

def answer (request : FetchRequest) (documents : List Document) : List Document :=
  let found := request.resume (request.ranked documents)
  match request.limit with
  | none => found
  | some limit => found.take limit

end FetchRequest

end DocQuery
