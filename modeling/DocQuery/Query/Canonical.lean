import DocQuery.Number.Shortest
import DocQuery.Query.Basic
import DocQuery.Text.Quoted
/-!
The canonical text of a query. Keywords are in lower case and one space apart, names and texts are
always quoted, and the clauses stand in the order in which a statement has them, so that reading
the text gives the query back.
-/
namespace DocQuery

/-- Doubles have a point among their digits from `10 ^ -4` up to `10 ^ 16`. A
larger exponent has no sign, and a tie goes to the larger decimal. -/
def FloatLiteral.style : Decimal.Style where
  lowest := -4
  highest := 15
  plus := false
  tieUp := true

/-- The text of a float. It always has a fraction or an exponent if it is
finite. -/
def FloatLiteral.text : FloatLiteral → String
  | .finite x => String.ofList (x.render style)
  | .infinite negative => if negative then "-inf" else "inf"
  | .nan => "NaN"

mutual

def Literal.text : Literal → String
  | .null => "null"
  | .bool b => if b then "true" else "false"
  | .integer n => String.ofList (Decimal.renderInteger n)
  | .float x => x.text
  | .string s => Text.quote s
  | .array items => "[" ++ String.intercalate ", " (Literal.texts items) ++ "]"

def Literal.texts : List Literal → List String
  | [] => []
  | item :: rest => item.text :: Literal.texts rest

end

/-- The keyword before a subject of a kind. -/
def SubjectKind.keyword : SubjectKind → String
  | .collection => "from"
  | .collectionGroup => "within"
  | .document => "at"

def Subject.text (subject : Subject) : String :=
  subject.kind.keyword ++ " " ++ Text.quote subject.path

/-- A property with its local marker. -/
def markedProperty (property : String) (isLocal : Bool) : String :=
  Text.quote property ++ (if isLocal then "^" else "")

def Clause.text (clause : Clause) : String :=
  markedProperty clause.property clause.isLocal ++ " " ++ clause.operator.symbol ++ " " ++
    clause.value.text

def OrderKey.text (key : OrderKey) : String :=
  markedProperty key.property key.isLocal ++ " " ++ key.direction.word

def Setter.text (setter : Setter) : String :=
  Text.quote setter.property ++ " = " ++ setter.value.text

def Projection.text : Projection → String
  | .all => "*"
  | .only properties => String.intercalate ", " (properties.map Text.quote)

/-- A clause that is left out when its list is empty. -/
def listClause (lead separator : String) (members : List String) : String :=
  if members.isEmpty then "" else lead ++ String.intercalate separator members

/-- A clause that is left out when it has no argument. -/
def optionalClause (lead : String) (argument : Option String) : String :=
  match argument with
  | none => ""
  | some text => lead ++ text

def clausesText (clauses : List Clause) : String :=
  listClause " where " " and " (clauses.map Clause.text)

def settersText (setters : List Setter) : String :=
  String.intercalate ", " (setters.map Setter.text)

def OutputClause.text (output : OutputClause) : String :=
  " output" ++ optionalClause " " (output.format.map Format.word) ++
    match output.kind with
    | .inline => ""
    | .clipboard => " clipboard"
    | .path => " " ++ Text.quote (output.destination.getD "")

def Select.text (q : Select) : String :=
  "select " ++ q.projection.text ++ " " ++ q.subject.text ++ clausesText q.clauses ++
    listClause " order by " ", " (q.order.map OrderKey.text) ++
    optionalClause " limit " (q.limit.map Nat.repr) ++
    optionalClause " page " (q.page.map Nat.repr) ++
    optionalClause " group by " (q.group.map Text.quote) ++
    optionalClause " function" (q.aggregate.map fun aggregate => "(" ++ aggregate.word ++ ")") ++
    ((q.output.map OutputClause.text).getD "")

def Update.text (q : Update) : String :=
  "update " ++ q.subject.text ++ " set " ++ settersText q.setters ++ clausesText q.clauses

def Delete.text (q : Delete) : String :=
  "delete " ++ q.subject.text ++ clausesText q.clauses

def Insert.text (q : Insert) : String :=
  "insert into " ++ Text.quote q.collection ++ " set " ++ settersText q.setters ++
    optionalClause " identified by " (q.identifier.map Text.quote)

def Show.text (q : Show) : String :=
  "show collections" ++ optionalClause " " (q.subject.map Subject.text)

/-- The canonical text of a query. -/
def Query.text : Query → String
  | .select q => q.text
  | .update q => q.text
  | .delete q => q.text
  | .insert q => q.text
  | .show q => q.text

end DocQuery
