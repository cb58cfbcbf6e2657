import DocQuery.Grammar.Read
/-!
From a statement as written to the query it means. Values are evaluated, subjects classified by
their paths, and the rules on which clauses a statement takes are checked, in a fixed order, so
that of two faults always the same one is reported.
-/
namespace DocQuery.Grammar

/-- The constant that the digits of a number stand for. With a fraction or an
exponent it is a float, otherwise an integer; both have to be in range. -/
def literalOfDigits (digits : String) : Except SyntaxError.Cause Literal :=
  let (negative, unsigned) := match digits.toList with
    | '-' :: rest => (true, rest)
    | rest => (false, rest)
  if digits.toList.any fun c => c == '.' || c == 'e' || c == 'E' then
    match Decimal.ofText? unsigned with
    | none => .error (.malformedNumber digits)
    | some decimal =>
        match Double.ofDecimal? negative decimal with
        | some x => .ok (.float (.finite x))
        | none => .error (.numberOutOfRange digits)
  else
    let size : Int := Decimal.value unsigned
    let n := if negative then -size else size
    if Literal.inRange n then .ok (.integer n) else .error (.integerOutOfRange digits)

mutual

/-- The constant that a written value stands for. A bare name stands for
none. -/
def ValueNode.evaluate : ValueNode → Except SyntaxError Literal
  | .string text _ => .ok (.string text)
  | .number digits position =>
      match literalOfDigits digits with
      | .ok literal => .ok literal
      | .error cause => .error ⟨cause, position, some digits⟩
  | .bool b _ => .ok (.bool b)
  | .null _ => .ok .null
  | .array items _ => do return .array (← ValueNode.evaluateAll items)
  | .name text position => .error ⟨.notALiteral text, position, some text⟩

def ValueNode.evaluateAll : List ValueNode → Except SyntaxError (List Literal)
  | [] => .ok []
  | item :: rest => do
      let first ← item.evaluate
      return first :: (← ValueNode.evaluateAll rest)

end

/-- The count after `limit` or `page`, which is a whole number from zero on. -/
def ValueNode.evaluateCount (clause : Keyword) (node : ValueNode) : Except SyntaxError Nat := do
  match ← node.evaluate with
  | .integer (.ofNat n) => return n
  | _ => throw ⟨.notACount clause, node.position, none⟩

/-- The page size, which is a count other than zero. -/
def ValueNode.evaluatePage (node : ValueNode) : Except SyntaxError Nat := do
  let size ← node.evaluateCount .page
  if size = 0 then throw ⟨.pageOfNothing, node.position, some "0"⟩ else return size

/-- The subject meant. After `at`, slashes around the path do not count, and the
depth of the path tells a document from a collection. -/
def SubjectNode.toSubject (node : SubjectNode) : Subject :=
  match node.keyword with
  | .from => ⟨node.name, .collection⟩
  | .within => ⟨node.name, .collectionGroup⟩
  | .at =>
      let path := Path.trim node.name
      ⟨path, if Path.isDocument path then .document else .collection⟩

/-- The clause meant. `like` is local with or without the marker. -/
def PredicateNode.toClause (node : PredicateNode) : Except SyntaxError Clause := do
  let value ← node.value.evaluate
  return { property := node.property.text
           operator := node.operator
           value
           isLocal := node.marked || node.operator == .like }

/-- The clauses meant by a where clause that may be missing. -/
def clausesOf (predicates : Option (List PredicateNode)) : Except SyntaxError (List Clause) :=
  (predicates.getD []).mapM PredicateNode.toClause

/-- The order key meant; ascending unless it says otherwise. -/
def SorterNode.toOrderKey (node : SorterNode) : OrderKey :=
  { property := node.property.text
    direction := node.direction.getD .asc
    isLocal := node.marked }

def SetterNode.toSetter (node : SetterNode) : Except SyntaxError Setter := do
  return ⟨node.property.text, ← node.value.evaluate⟩

def aggregateOf (name : Name) : Except SyntaxError Aggregate :=
  match Text.foldWord name.text with
  | "count" => .ok .count
  | "distinct" => .ok .distinct
  | _ => .error ⟨.unknownFunction name.text, name.position, some name.text⟩

def formatOf (name : Name) : Except SyntaxError Format :=
  match Text.foldWord name.text with
  | "json" => .ok .json
  | "csv" => .ok .csv
  | _ => .error ⟨.unknownFormat name.text, name.position, some name.text⟩

def OutputNode.toOutput (node : OutputNode) : Except SyntaxError OutputClause := do
  let format ← node.format.mapM formatOf
  return match node.target with
    | none => ⟨.inline, format, none⟩
    | some .clipboard => ⟨.clipboard, format, none⟩
    | some (.path text) => ⟨.path, format, some text⟩

/-- The projection meant; a select names at least one field. -/
def FieldsNode.toProjection (node : FieldsNode) (position : Position) :
    Except SyntaxError Projection :=
  match node with
  | .star => .ok .all
  | .list [] => .error ⟨.noFields, position, none⟩
  | .list properties => .ok (.only (properties.map Name.text))

/-- The select meant. On a single document it takes no where clause. -/
def SelectNode.toSelect (node : SelectNode) : Except SyntaxError Select := do
  let subject := node.subject.toSubject
  if subject.kind = .document ∧ node.predicates.isSome then
    throw ⟨.whereOnDocument, node.position, some subject.path⟩
  let projection ← node.fields.toProjection node.position
  let clauses ← clausesOf node.predicates
  let order := (node.sorters.getD []).map SorterNode.toOrderKey
  let limit ← node.limit.mapM (ValueNode.evaluateCount .limit)
  let page ← node.page.mapM ValueNode.evaluatePage
  let aggregate ← node.function.mapM aggregateOf
  let output ← node.output.mapM OutputNode.toOutput
  return { subject, clauses, projection, limit, page, order
           group := node.group.map Name.text
           aggregate, output }

/-- An update or delete of anything but a document has to be narrowed by a where
clause. -/
def requireWhere (statement : Keyword) (subject : Subject)
    (predicates : Option (List PredicateNode)) (position : Position) : Except SyntaxError Unit :=
  if subject.kind ≠ .document ∧ predicates.getD [] matches [] then
    .error ⟨.whereRequired statement, position, some subject.path⟩
  else .ok ()

def UpdateNode.toUpdate (node : UpdateNode) : Except SyntaxError Update := do
  let subject := node.subject.toSubject
  requireWhere .update subject node.predicates node.position
  let setters ← node.setters.mapM SetterNode.toSetter
  let clauses ← clausesOf node.predicates
  return { subject, clauses, setters }

def DeleteNode.toDelete (node : DeleteNode) : Except SyntaxError Delete := do
  let subject := node.subject.toSubject
  requireWhere .delete subject node.predicates node.position
  return { subject, clauses := ← clausesOf node.predicates }

/-- The identifier of a new document: a text, or an integer in decimal
digits. -/
def identifierOf (node : ValueNode) : Except SyntaxError String := do
  match ← node.evaluate with
  | .string text => return text
  | .integer n => return String.ofList (Decimal.renderInteger n)
  | _ => throw ⟨.identifierType, node.position, none⟩

/-- The insert meant. Slashes around the path of the collection do not count. -/
def InsertNode.toInsert (node : InsertNode) : Except SyntaxError Insert := do
  let identifier ← node.identifier.mapM identifierOf
  let setters ← node.setters.mapM SetterNode.toSetter
  return { collection := Path.trim node.collection.name, setters, identifier }

/-- The show meant. It takes no where clause. -/
def ShowNode.toShow (node : ShowNode) : Except SyntaxError Show :=
  if node.predicates.isSome then .error ⟨.whereOnShow, node.position, none⟩
  else .ok ⟨node.subject.map SubjectNode.toSubject⟩

def Statement.toQuery : Statement → Except SyntaxError Query
  | .select node => return .select (← node.toSelect)
  | .update node => return .update (← node.toUpdate)
  | .delete node => return .delete (← node.toDelete)
  | .insert node => return .insert (← node.toInsert)
  | .show node => return .show (← node.toShow)

end DocQuery.Grammar

namespace DocQuery

def Query.ofText (text : String) : Except SyntaxError Query := do
  (← Grammar.Statement.ofText text).toQuery

end DocQuery
