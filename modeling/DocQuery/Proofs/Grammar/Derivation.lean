import DocQuery.Proofs.Query.Tokens

/-! The grammar of statements. A form says as which tokens a part of a statement
may be written, and nothing about how they are read: no token is looked at
before it is taken, and where a part that may be absent ends is left open. The
trees of the grammar have no places; where a tree has to name one, it is the
start of the text. -/
namespace DocQuery.Grammar

section Unplaced

def Name.unplaced (name : Name) : Name :=
  { name with position := .start }

mutual

/-- The value without the places in it. -/
def ValueNode.unplaced : ValueNode → ValueNode
  | .string text _ => .string text .start
  | .number digits _ => .number digits .start
  | .bool b _ => .bool b .start
  | .null _ => .null .start
  | .array items _ => .array (ValueNode.unplacedItems items) .start
  | .name text _ => .name text .start

def ValueNode.unplacedItems : List ValueNode → List ValueNode
  | [] => []
  | item :: rest => item.unplaced :: ValueNode.unplacedItems rest

end

theorem ValueNode.unplacedItems_eq (items : List ValueNode) :
    ValueNode.unplacedItems items = items.map ValueNode.unplaced := by
  induction items with
  | nil => rfl
  | cons item rest ih => rw [ValueNode.unplacedItems, ih, List.map_cons]

def SubjectNode.unplaced (subject : SubjectNode) : SubjectNode :=
  { subject with position := .start }

def PredicateNode.unplaced (predicate : PredicateNode) : PredicateNode :=
  { predicate with property := predicate.property.unplaced, value := predicate.value.unplaced }

def SorterNode.unplaced (sorter : SorterNode) : SorterNode :=
  { sorter with property := sorter.property.unplaced }

def SetterNode.unplaced (setter : SetterNode) : SetterNode :=
  ⟨setter.property.unplaced, setter.value.unplaced⟩

def FieldsNode.unplaced : FieldsNode → FieldsNode
  | .star => .star
  | .list properties => .list (properties.map Name.unplaced)

def OutputNode.unplaced (output : OutputNode) : OutputNode :=
  { output with format := output.format.map Name.unplaced, position := .start }

def SelectNode.unplaced (node : SelectNode) : SelectNode where
  fields := node.fields.unplaced
  subject := node.subject.unplaced
  predicates := node.predicates.map (List.map PredicateNode.unplaced)
  sorters := node.sorters.map (List.map SorterNode.unplaced)
  limit := node.limit.map ValueNode.unplaced
  page := node.page.map ValueNode.unplaced
  group := node.group.map Name.unplaced
  function := node.function.map Name.unplaced
  output := node.output.map OutputNode.unplaced
  position := .start

def UpdateNode.unplaced (node : UpdateNode) : UpdateNode where
  subject := node.subject.unplaced
  setters := node.setters.map SetterNode.unplaced
  predicates := node.predicates.map (List.map PredicateNode.unplaced)
  position := .start

def DeleteNode.unplaced (node : DeleteNode) : DeleteNode where
  subject := node.subject.unplaced
  predicates := node.predicates.map (List.map PredicateNode.unplaced)
  position := .start

def InsertNode.unplaced (node : InsertNode) : InsertNode where
  collection := node.collection.unplaced
  setters := node.setters.map SetterNode.unplaced
  identifier := node.identifier.map ValueNode.unplaced
  position := .start

def ShowNode.unplaced (node : ShowNode) : ShowNode where
  subject := node.subject.map SubjectNode.unplaced
  predicates := node.predicates.map (List.map PredicateNode.unplaced)
  position := .start

/-- The statement without the places in it. -/
def Statement.unplaced : Statement → Statement
  | .select node => .select node.unplaced
  | .update node => .update node.unplaced
  | .delete node => .delete node.unplaced
  | .insert node => .insert node.unplaced
  | .show node => .show node.unplaced

end Unplaced

/-- As which tokens a part of a statement may be written. -/
abbrev Form (α : Type) := List Token → α → Prop

section Combinations

variable {α : Type}

/-- A part behind a keyword. -/
inductive Behind (k : Keyword) (form : Form α) : Form α where
  | intro {tokens : List Token} {part : α} (hPart : form tokens part) :
      Behind k form (.keyword k :: tokens) part

/-- A part that may be absent. -/
inductive Optionally (form : Form α) : Form (Option α) where
  | absent : Optionally form [] none
  | present {tokens : List Token} {part : α} (hPart : form tokens part) :
      Optionally form tokens (some part)

/-- At least one part, with a separator between any two. -/
inductive Separated (separator : Token) (form : Form α) : Form (List α) where
  | intro {pieces : List (List Token)} {parts : List α} (hParts : List.Forall₂ form pieces parts)
      (hNonempty : parts ≠ []) : Separated separator form (separatedTokens separator pieces) parts

end Combinations

/-- A name is an identifier or a quoted text. -/
inductive SpellsName : Form Name where
  | identifier (text : String) : SpellsName [.identifier text] ⟨text, .start⟩
  | string (text : String) : SpellsName [.string text] ⟨text, .start⟩

/-- A value is a constant, a word, or a list of values in brackets, which may be
empty and has no comma behind its last item. -/
inductive SpellsValue : Form ValueNode where
  | string (text : String) : SpellsValue [.string text] (.string text .start)
  | number (digits : String) : SpellsValue [.number digits] (.number digits .start)
  | negative (digits : String) :
      SpellsValue [.mark .minus, .number digits] (.number ("-" ++ digits) .start)
  | true : SpellsValue [.keyword .true] (.bool true .start)
  | false : SpellsValue [.keyword .false] (.bool false .start)
  | null : SpellsValue [.keyword .null] (.null .start)
  | name (text : String) : SpellsValue [.identifier text] (.name text .start)
  | array {pieces : List (List Token)} {items : List ValueNode}
      (hItems : List.Forall₂ SpellsValue pieces items) :
      SpellsValue
        (.mark .leftBracket :: (separatedTokens (.mark .comma) pieces ++ [.mark .rightBracket]))
        (.array items .start)

/-- The marker that makes a condition or an order key local. -/
inductive SpellsMarker : Form Bool where
  | absent : SpellsMarker [] false
  | present : SpellsMarker [.mark .caret] true

inductive SpellsOperator : Form Operator where
  | intro (operator : Operator) : SpellsOperator [operator.token] operator

inductive SpellsPredicate : Form PredicateNode where
  | intro {propertyTokens markerTokens operatorTokens valueTokens : List Token} {property : Name}
      {marked : Bool} {operator : Operator} {value : ValueNode}
      (hProperty : SpellsName propertyTokens property)
      (hMarker : SpellsMarker markerTokens marked)
      (hOperator : SpellsOperator operatorTokens operator)
      (hValue : SpellsValue valueTokens value) :
      SpellsPredicate (propertyTokens ++ (markerTokens ++ (operatorTokens ++ valueTokens)))
        ⟨property, marked, operator, value⟩

abbrev SpellsWhere : Form (Option (List PredicateNode)) :=
  Optionally (Behind .where (Separated (.keyword .and) SpellsPredicate))

inductive SpellsDirection : Form Direction where
  | intro (direction : Direction) : SpellsDirection [.keyword direction.keyword] direction

inductive SpellsSorter : Form SorterNode where
  | intro {propertyTokens markerTokens directionTokens : List Token} {property : Name}
      {marked : Bool} {direction : Option Direction}
      (hProperty : SpellsName propertyTokens property)
      (hMarker : SpellsMarker markerTokens marked)
      (hDirection : Optionally SpellsDirection directionTokens direction) :
      SpellsSorter (propertyTokens ++ (markerTokens ++ directionTokens))
        ⟨property, marked, direction⟩

inductive SpellsSetter : Form SetterNode where
  | intro {propertyTokens valueTokens : List Token} {property : Name} {value : ValueNode}
      (hProperty : SpellsName propertyTokens property) (hValue : SpellsValue valueTokens value) :
      SpellsSetter (propertyTokens ++ (.mark .assign :: valueTokens)) ⟨property, value⟩

abbrev SpellsSetters : Form (List SetterNode) :=
  Behind .set (Separated (.mark .comma) SpellsSetter)

/-- A subject that may begin with these keywords. -/
inductive SpellsSubject (allowed : List SubjectKeyword) : Form SubjectNode where
  | intro {word : SubjectKeyword} {tokens : List Token} {text : String} (hWord : word ∈ allowed)
      (hName : SpellsName tokens ⟨text, .start⟩) :
      SpellsSubject allowed (.keyword word.keyword :: tokens) ⟨word, text, .start⟩

/-- The fields of a select, of which there may be none. -/
inductive SpellsFields : Form FieldsNode where
  | star : SpellsFields [.mark .star] .star
  | none : SpellsFields [] (.list [])
  | list {tokens : List Token} {properties : List Name}
      (hProperties : Separated (.mark .comma) SpellsName tokens properties) :
      SpellsFields tokens (.list properties)

/-- The word of a function in parentheses. -/
inductive SpellsFunction : Form Name where
  | intro (word : String) :
      SpellsFunction [.mark .leftParen, .identifier word, .mark .rightParen] ⟨word, .start⟩

/-- A format is a word other than `clipboard`. -/
inductive SpellsFormat : Form Name where
  | intro {word : String} (hWord : isClipboard word = Bool.false) :
      SpellsFormat [.identifier word] ⟨word, .start⟩

/-- A target is the word `clipboard` or a quoted path. -/
inductive SpellsTarget : Form OutputTarget where
  | clipboard {word : String} (hWord : isClipboard word = Bool.true) :
      SpellsTarget [.identifier word] .clipboard
  | path (text : String) : SpellsTarget [.string text] (.path text)

/-- A format, a target, or a format and then a target. -/
inductive SpellsOutput : Form OutputNode where
  | intro {formatTokens targetTokens : List Token} {format : Option Name}
      {target : Option OutputTarget} (hFormat : Optionally SpellsFormat formatTokens format)
      (hTarget : Optionally SpellsTarget targetTokens target)
      (hSome : format ≠ none ∨ target ≠ none) :
      SpellsOutput (formatTokens ++ targetTokens) ⟨format, target, .start⟩

/-- A select. Each of its clauses stands at most once, and in this order. -/
inductive SpellsSelect : Form SelectNode where
  | intro {fieldsTokens subjectTokens whereTokens orderTokens limitTokens pageTokens groupTokens
        functionTokens outputTokens : List Token}
      {fields : FieldsNode} {subject : SubjectNode} {predicates : Option (List PredicateNode)}
      {sorters : Option (List SorterNode)} {limit page : Option ValueNode}
      {group function : Option Name} {output : Option OutputNode}
      (hFields : SpellsFields fieldsTokens fields)
      (hSubject : SpellsSubject [.from, .within, .at] subjectTokens subject)
      (hWhere : SpellsWhere whereTokens predicates)
      (hOrder : Optionally (Behind .order (Behind .by (Separated (.mark .comma) SpellsSorter)))
        orderTokens sorters)
      (hLimit : Optionally (Behind .limit SpellsValue) limitTokens limit)
      (hPage : Optionally (Behind .page SpellsValue) pageTokens page)
      (hGroup : Optionally (Behind .group (Behind .by SpellsName)) groupTokens group)
      (hFunction : Optionally (Behind .function SpellsFunction) functionTokens function)
      (hOutput : Optionally (Behind .output SpellsOutput) outputTokens output) :
      SpellsSelect
        (.keyword .select :: (fieldsTokens ++ (subjectTokens ++ (whereTokens ++ (orderTokens ++
          (limitTokens ++ (pageTokens ++ (groupTokens ++ (functionTokens ++ outputTokens)))))))))
        ⟨fields, subject, predicates, sorters, limit, page, group, function, output, .start⟩

inductive SpellsUpdate : Form UpdateNode where
  | intro {subjectTokens settersTokens whereTokens : List Token} {subject : SubjectNode}
      {setters : List SetterNode} {predicates : Option (List PredicateNode)}
      (hSubject : SpellsSubject [.from, .at] subjectTokens subject)
      (hSetters : SpellsSetters settersTokens setters)
      (hWhere : SpellsWhere whereTokens predicates) :
      SpellsUpdate (.keyword .update :: (subjectTokens ++ (settersTokens ++ whereTokens)))
        ⟨subject, setters, predicates, .start⟩

inductive SpellsDelete : Form DeleteNode where
  | intro {subjectTokens whereTokens : List Token} {subject : SubjectNode}
      {predicates : Option (List PredicateNode)}
      (hSubject : SpellsSubject [.from, .at] subjectTokens subject)
      (hWhere : SpellsWhere whereTokens predicates) :
      SpellsDelete (.keyword .delete :: (subjectTokens ++ whereTokens))
        ⟨subject, predicates, .start⟩

/-- An insert. Its collection is kept as a subject after `from`. -/
inductive SpellsInsert : Form InsertNode where
  | intro {collectionTokens settersTokens identifierTokens : List Token} {text : String}
      {setters : List SetterNode} {identifier : Option ValueNode}
      (hCollection : SpellsName collectionTokens ⟨text, .start⟩)
      (hSetters : SpellsSetters settersTokens setters)
      (hIdentifier : Optionally (Behind .identified (Behind .by SpellsValue)) identifierTokens
        identifier) :
      SpellsInsert
        (.keyword .insert :: .keyword .into ::
          (collectionTokens ++ (settersTokens ++ identifierTokens)))
        ⟨⟨.from, text, .start⟩, setters, identifier, .start⟩

inductive SpellsShow : Form ShowNode where
  | intro {word : String} {subjectTokens whereTokens : List Token} {subject : Option SubjectNode}
      {predicates : Option (List PredicateNode)}
      (hWord : Text.sameWord word "collections" = Bool.true)
      (hSubject : Optionally (SpellsSubject [.from, .within, .at]) subjectTokens subject)
      (hWhere : SpellsWhere whereTokens predicates) :
      SpellsShow (.keyword .show :: .identifier word :: (subjectTokens ++ whereTokens))
        ⟨subject, predicates, .start⟩

inductive SpellsStatement : Form Statement where
  | select {tokens : List Token} {node : SelectNode} (h : SpellsSelect tokens node) :
      SpellsStatement tokens (.select node)
  | update {tokens : List Token} {node : UpdateNode} (h : SpellsUpdate tokens node) :
      SpellsStatement tokens (.update node)
  | delete {tokens : List Token} {node : DeleteNode} (h : SpellsDelete tokens node) :
      SpellsStatement tokens (.delete node)
  | insert {tokens : List Token} {node : InsertNode} (h : SpellsInsert tokens node) :
      SpellsStatement tokens (.insert node)
  | show {tokens : List Token} {node : ShowNode} (h : SpellsShow tokens node) :
      SpellsStatement tokens (.show node)

/-- A whole text: a statement, at most one semicolon, and the end of the
text. -/
inductive SpellsWhole : Form Statement where
  | plain {tokens : List Token} {statement : Statement} (h : SpellsStatement tokens statement) :
      SpellsWhole (tokens ++ [.endOfInput]) statement
  | closed {tokens : List Token} {statement : Statement} (h : SpellsStatement tokens statement) :
      SpellsWhole (tokens ++ [.mark .semicolon, .endOfInput]) statement

end DocQuery.Grammar
