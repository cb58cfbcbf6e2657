import DocQuery.Grammar.Token
import DocQuery.Query.Basic
/-!
Statements as they are written. Values are not evaluated yet and clauses are not checked; every
part that a later check may complain about keeps its place in the text.
-/
namespace DocQuery.Grammar

structure Name where
  text : String
  position : Position
  deriving DecidableEq, Repr

/-- A written value. A number keeps its digits, with the minus sign that stood
before them. -/
inductive ValueNode where
  | string (text : String) (position : Position)
  | number (digits : String) (position : Position)
  | bool (b : Bool) (position : Position)
  | null (position : Position)
  | array (items : List ValueNode) (position : Position)
  | name (text : String) (position : Position)
  deriving Repr

def ValueNode.position : ValueNode → Position
  | .string _ position => position
  | .number _ position => position
  | .bool _ position => position
  | .null position => position
  | .array _ position => position
  | .name _ position => position

/-- The word before the name of a subject. -/
inductive SubjectKeyword where
  | from
  | within
  | at
  deriving DecidableEq, Repr

def SubjectKeyword.keyword : SubjectKeyword → Keyword
  | .from => .from
  | .within => .within
  | .at => .at

/-- A written subject with the place of its name. -/
structure SubjectNode where
  keyword : SubjectKeyword
  name : String
  position : Position
  deriving DecidableEq, Repr

structure PredicateNode where
  property : Name
  marked : Bool
  operator : Operator
  value : ValueNode
  deriving Repr

structure SorterNode where
  property : Name
  marked : Bool
  direction : Option Direction
  deriving DecidableEq, Repr

structure SetterNode where
  property : Name
  value : ValueNode
  deriving Repr

/-- The written fields of a select; the list may be empty here. -/
inductive FieldsNode where
  | star
  | list (properties : List Name)
  deriving DecidableEq, Repr

/-- Where a written output clause sends the result. -/
inductive OutputTarget where
  | clipboard
  | path (text : String)
  deriving DecidableEq, Repr

structure OutputNode where
  format : Option Name
  target : Option OutputTarget
  position : Position
  deriving DecidableEq, Repr

/-- A written select; its clauses stand in this order. -/
structure SelectNode where
  fields : FieldsNode
  subject : SubjectNode
  predicates : Option (List PredicateNode)
  sorters : Option (List SorterNode)
  limit : Option ValueNode
  page : Option ValueNode
  group : Option Name
  function : Option Name
  output : Option OutputNode
  position : Position
  deriving Repr

/-- A written update, whose setters stand before its where clause. -/
structure UpdateNode where
  subject : SubjectNode
  setters : List SetterNode
  predicates : Option (List PredicateNode)
  position : Position
  deriving Repr

structure DeleteNode where
  subject : SubjectNode
  predicates : Option (List PredicateNode)
  position : Position
  deriving Repr

/-- A written insert, whose collection is kept as a subject after `from`. -/
structure InsertNode where
  collection : SubjectNode
  setters : List SetterNode
  identifier : Option ValueNode
  position : Position
  deriving Repr

/-- A written show. A where clause is read here and refused later. -/
structure ShowNode where
  subject : Option SubjectNode
  predicates : Option (List PredicateNode)
  position : Position
  deriving Repr

inductive Statement where
  | select (node : SelectNode)
  | update (node : UpdateNode)
  | delete (node : DeleteNode)
  | insert (node : InsertNode)
  | show (node : ShowNode)
  deriving Repr

end DocQuery.Grammar
