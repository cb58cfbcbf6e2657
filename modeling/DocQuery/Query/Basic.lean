import DocQuery.Path
import DocQuery.Value.Basic
/-!
Queries: what a statement asks for once it has been read and checked. A statement selects, updates
or deletes the documents of one subject, inserts one document, or shows collections.
-/
namespace DocQuery

/-- A float in a query. Unlike a number of a document, it may be infinite or no
number. -/
inductive FloatLiteral where
  | finite (x : Double)
  | infinite (negative : Bool)
  | nan
  deriving DecidableEq, Repr

inductive Literal where
  | null
  | bool (b : Bool)
  | integer (n : Int)
  | float (x : FloatLiteral)
  | string (s : String)
  | array (items : List Literal)
  deriving Repr, Inhabited

/-- An integer of a query has sixty-four bits, one of them for the sign. -/
def Literal.inRange (n : Int) : Bool :=
  -9223372036854775808 ≤ n && n ≤ 9223372036854775807

mutual

/-- The value a constant stands for. A float that is not finite has none and
becomes null. -/
def Literal.toValue : Literal → Value
  | .null => .null
  | .bool b => .bool b
  | .integer n => .number (.integer n)
  | .float (.finite x) => .number (.real x)
  | .float (.infinite _) => .null
  | .float .nan => .null
  | .string s => .string s
  | .array items => .array (Literal.toValues items)

def Literal.toValues : List Literal → List Value
  | [] => []
  | item :: rest => item.toValue :: Literal.toValues rest

end

/-- Numerical equality of floats: no-number equals nothing, and the two zeros
are equal. -/
def FloatLiteral.equal : FloatLiteral → FloatLiteral → Bool
  | .finite x, .finite y => x.equal y
  | .infinite a, .infinite b => a == b
  | _, _ => false

mutual

/-- Equality of constants of one kind. -/
def Literal.equal : Literal → Literal → Bool
  | .null, .null => true
  | .bool a, .bool b => a == b
  | .integer a, .integer b => a == b
  | .float a, .float b => a.equal b
  | .string a, .string b => a == b
  | .array xs, .array ys => Literal.equalItems xs ys
  | _, _ => false

def Literal.equalItems : List Literal → List Literal → Bool
  | [], [] => true
  | x :: xs, y :: ys => x.equal y && Literal.equalItems xs ys
  | _, _ => false

end

/-- What a subject's path names. -/
inductive SubjectKind where
  /-- The documents directly inside one collection. -/
  | collection
  /-- The documents of every collection of one name, at any depth. -/
  | collectionGroup
  /-- One document. -/
  | document
  deriving DecidableEq, Repr

/-- The collection, group or document that a statement is about. -/
structure Subject where
  path : String
  kind : SubjectKind
  deriving DecidableEq, Repr

inductive Operator where
  | equal
  | notEqual
  | greaterThan
  | greaterThanOrEqual
  | lessThan
  | lessThanOrEqual
  | isIn
  | notIn
  | arrayContains
  | arrayContainsAny
  | like
  deriving DecidableEq, Repr

def Operator.symbol : Operator → String
  | .equal => "=="
  | .notEqual => "!="
  | .greaterThan => ">"
  | .greaterThanOrEqual => ">="
  | .lessThan => "<"
  | .lessThanOrEqual => "<="
  | .isIn => "in"
  | .notIn => "not_in"
  | .arrayContains => "array_contains"
  | .arrayContainsAny => "array_contains_any"
  | .like => "like"

/-- A condition on one property. A local clause is checked after the documents
were fetched. -/
structure Clause where
  property : String
  operator : Operator
  value : Literal
  isLocal : Bool
  deriving Repr

inductive Direction where
  | asc
  | desc
  deriving DecidableEq, Repr

def Direction.word : Direction → String
  | .asc => "asc"
  | .desc => "desc"

/-- An order of two things seen in a direction. -/
def Direction.apply : Direction → Ordering → Ordering
  | .asc, ordering => ordering
  | .desc, ordering => ordering.swap

/-- One key of an order. A local key is applied after the documents were
fetched. -/
structure OrderKey where
  property : String
  direction : Direction
  isLocal : Bool
  deriving DecidableEq, Repr

structure Setter where
  property : String
  value : Literal
  deriving Repr

/-- The properties a select asks for. -/
inductive Projection where
  | all
  | only (properties : List String)
  deriving DecidableEq, Repr

/-- What is made of the selected records. -/
inductive Aggregate where
  | count
  | distinct
  deriving DecidableEq, Repr

def Aggregate.word : Aggregate → String
  | .count => "count"
  | .distinct => "distinct"

inductive Format where
  | json
  | csv
  deriving DecidableEq, Repr

def Format.word : Format → String
  | .json => "json"
  | .csv => "csv"

/-- Where the result of an output clause goes. -/
inductive OutputKind where
  /-- Back to the caller, in the clause's format. -/
  | inline
  | path
  | clipboard
  deriving DecidableEq, Repr

/-- An output clause. Without a format the default format applies. -/
structure OutputClause where
  kind : OutputKind
  format : Option Format
  destination : Option String
  deriving DecidableEq, Repr

/-- Selects documents and says what becomes of them: which are taken, in which
order and in what shape, and where the result goes. -/
structure Select where
  subject : Subject
  clauses : List Clause
  projection : Projection
  limit : Option Nat
  page : Option Nat
  order : List OrderKey
  group : Option String
  aggregate : Option Aggregate
  output : Option OutputClause
  deriving Repr

/-- Sets properties of every document that the subject and the clauses
select. -/
structure Update where
  subject : Subject
  clauses : List Clause
  setters : List Setter
  deriving Repr

/-- Removes every document that the subject and the clauses select. -/
structure Delete where
  subject : Subject
  clauses : List Clause
  deriving Repr

/-- Creates one document in a collection. Without an identifier the store gives
it one. -/
structure Insert where
  collection : String
  setters : List Setter
  identifier : Option String
  deriving Repr

/-- Shows the collections at the root, below one document, or below the
documents of a collection or group. -/
structure Show where
  subject : Option Subject
  deriving DecidableEq, Repr

/-- A statement that has been read and checked. -/
inductive Query where
  | select (q : Select)
  | update (q : Update)
  | delete (q : Delete)
  | insert (q : Insert)
  | show (q : Show)
  deriving Repr

namespace Query

def keyword : Query → String
  | .select _ => "select"
  | .update _ => "update"
  | .delete _ => "delete"
  | .insert _ => "insert"
  | .show _ => "show"

/-- The path of what a statement is about. -/
def subjectPath? : Query → Option String
  | .select q => some q.subject.path
  | .update q => some q.subject.path
  | .delete q => some q.subject.path
  | .insert q => some q.collection
  | .show q => q.subject.map Subject.path

/-- The kind of what a statement is about. The root, which `show` may be about,
counts as a document. -/
def subjectKind : Query → SubjectKind
  | .select q => q.subject.kind
  | .update q => q.subject.kind
  | .delete q => q.subject.kind
  | .insert _ => .collection
  | .show q => (q.subject.map Subject.kind).getD .document

/-- The where clauses in the order they were written. -/
def clauses : Query → List Clause
  | .select q => q.clauses
  | .update q => q.clauses
  | .delete q => q.clauses
  | .insert _ => []
  | .show _ => []

end Query

def Clause.equal (a b : Clause) : Bool :=
  a.property == b.property && a.operator == b.operator && a.value.equal b.value &&
    a.isLocal == b.isLocal

def Setter.equal (a b : Setter) : Bool :=
  a.property == b.property && a.value.equal b.value

/-- Equality of lists of one length, member by member. -/
def equalLists (equal : α → α → Bool) : List α → List α → Bool
  | [], [] => true
  | x :: xs, y :: ys => equal x y && equalLists equal xs ys
  | _, _ => false

/-- Equality of queries, where floats are compared by number. -/
def Query.equal : Query → Query → Bool
  | .select a, .select b =>
      a.subject == b.subject && equalLists Clause.equal a.clauses b.clauses &&
        a.projection == b.projection && a.limit == b.limit && a.page == b.page &&
        a.order == b.order && a.group == b.group && a.aggregate == b.aggregate &&
        a.output == b.output
  | .update a, .update b =>
      a.subject == b.subject && equalLists Clause.equal a.clauses b.clauses &&
        equalLists Setter.equal a.setters b.setters
  | .delete a, .delete b =>
      a.subject == b.subject && equalLists Clause.equal a.clauses b.clauses
  | .insert a, .insert b =>
      a.collection == b.collection && equalLists Setter.equal a.setters b.setters &&
        a.identifier == b.identifier
  | .show a, .show b => a == b
  | _, _ => false

end DocQuery
