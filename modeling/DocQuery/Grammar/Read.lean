import DocQuery.Grammar.Scan
import DocQuery.Grammar.Tree
/-!
Reading a statement from tokens. Each reader looks at the next token only, takes what belongs to
its part of the statement and leaves the rest; where it stops with a complaint, the complaint is
about the token it stopped at. So the place of an error is the place of that token, or the end of
the text.
-/
namespace DocQuery.Grammar

/-- A complaint of a reader and the tokens from the one that it is about. -/
structure Complaint where
  cause : SyntaxError.Cause
  rest : List Lexeme

/-- Reads a part of a statement and leaves the tokens after it. -/
abbrev Reader (α : Type) := StateT (List Lexeme) (Except Complaint) α

namespace Reader

def head (rest : List Lexeme) : Token :=
  match rest with
  | [] => .endOfInput
  | lexeme :: _ => lexeme.token

def peek : Reader Token :=
  return head (← get)

def skip : Reader Unit :=
  modify List.tail

/-- Stops at the next token. -/
def stop {α : Type} (cause : SyntaxError.Cause) : Reader α :=
  fun rest => .error ⟨cause, rest⟩

/-- Stops at the next token, which is not what was expected. -/
def missing {α : Type} (expectation : Expectation) : Reader α := do
  stop (.expected expectation (← peek))

/-- The place of the next token; after the last token it is unknown and not
needed, because nothing is read there. -/
def place : Reader Position :=
  return match ← get with
    | [] => Position.start
    | lexeme :: _ => lexeme.position

/-- Takes a token if it is the next one and tells whether it was. -/
def accept (token : Token) : Reader Bool := do
  if (← peek) = token then
    skip
    return true
  else return false

/-- Takes a token, which has to be the next one, and gives its place. -/
def expect (token : Token) : Reader Position := do
  let position ← place
  if ← accept token then return position else missing (.token token)

/-- Takes a keyword, which has to be the next token, and gives its place. -/
def keyword (k : Keyword) : Reader Position :=
  expect (.keyword k)

def name (expectation : Expectation) : Reader Name := do
  let position ← place
  match ← peek with
  | .identifier text =>
      skip
      return ⟨text, position⟩
  | .string text =>
      skip
      return ⟨text, position⟩
  | _ => missing expectation

/-- One item, and further items as long as a separator follows. The budget
bounds the number of further items. -/
def separatedWithin {α : Type} (separator : Token) (item : Reader α) : Nat → Reader (List α)
  | 0 => return [← item]
  | budget + 1 => do
      let first ← item
      if ← accept separator then return first :: (← separatedWithin separator item budget)
      else return [first]

/-- One item, and further items as long as a separator follows. There are no
more separators than tokens, so the budget is never used up. -/
def separated {α : Type} (separator : Token) (item : Reader α) : Reader (List α) := do
  separatedWithin separator item (← get).length

/-- A part that stands only after a keyword. -/
def optional {α : Type} (k : Keyword) (part : Reader α) : Reader (Option α) := do
  if ← accept (.keyword k) then return some (← part) else return none

end Reader

open Reader

def readProperty : Reader Name :=
  name .property

/-- A value of no more than so many nested arrays. -/
def readValueWithin : Nat → Reader ValueNode
  | 0 => missing .value
  | depth + 1 => do
      let position ← place
      match ← peek with
      | .string text =>
          skip
          return .string text position
      | .number digits =>
          skip
          return .number digits position
      | .mark .minus =>
          skip
          match ← peek with
          | .number digits =>
              skip
              return .number ("-" ++ digits) position
          | _ => missing .numberAfterMinus
      | .keyword .true =>
          skip
          return .bool true position
      | .keyword .false =>
          skip
          return .bool false position
      | .keyword .null =>
          skip
          return .null position
      | .identifier text =>
          skip
          return .name text position
      | .mark .leftBracket =>
          skip
          if ← accept (.mark .rightBracket) then return .array [] position
          else
            let items ← separated (.mark .comma) (readValueWithin depth)
            let _ ← expect (.mark .rightBracket)
            return .array items position
      | _ => missing .value

/-- A value. Its arrays are not nested deeper than there are tokens. -/
def readValue : Reader ValueNode := do
  readValueWithin ((← get).length + 1)

/-- The local marker, if it is there. -/
def readMarker : Reader Bool :=
  accept (.mark .caret)

def operatorOfToken? : Token → Option Operator
  | .mark .equal => some .equal
  | .mark .notEqual => some .notEqual
  | .mark .greaterThan => some .greaterThan
  | .mark .greaterThanOrEqual => some .greaterThanOrEqual
  | .mark .lessThan => some .lessThan
  | .mark .lessThanOrEqual => some .lessThanOrEqual
  | .keyword .in => some .isIn
  | .keyword .notIn => some .notIn
  | .keyword .arrayContains => some .arrayContains
  | .keyword .arrayContainsAny => some .arrayContainsAny
  | .keyword .like => some .like
  | _ => none

def readOperator : Reader Operator := do
  match operatorOfToken? (← peek) with
  | some operator =>
      skip
      return operator
  | none => missing .operator

def readPredicate : Reader PredicateNode := do
  let property ← readProperty
  let marked ← readMarker
  let operator ← readOperator
  let value ← readValue
  return { property, marked, operator, value }

/-- The where clause, if there is one. -/
def readWhere : Reader (Option (List PredicateNode)) :=
  optional .where (separated (.keyword .and) readPredicate)

def directionOfToken? : Token → Option Direction
  | .keyword .asc => some .asc
  | .keyword .desc => some .desc
  | _ => none

/-- The direction of an order key, if it has one. -/
def readDirection : Reader (Option Direction) := do
  match directionOfToken? (← peek) with
  | some direction =>
      skip
      return some direction
  | none => return none

def readSorter : Reader SorterNode := do
  let property ← readProperty
  let marked ← readMarker
  let direction ← readDirection
  return { property, marked, direction }

def readSetter : Reader SetterNode := do
  let property ← readProperty
  let _ ← expect (.mark .assign)
  let value ← readValue
  return { property, value }

def readSetters : Reader (List SetterNode) := do
  let _ ← keyword .set
  separated (.mark .comma) readSetter

def subjectKeywordOfToken? : Token → Option SubjectKeyword
  | .keyword .from => some .from
  | .keyword .within => some .within
  | .keyword .at => some .at
  | _ => none

/-- A subject, one of whose allowed keywords stands before its name. -/
def readSubject (allowed : List SubjectKeyword) : Reader SubjectNode := do
  match subjectKeywordOfToken? (← peek) with
  | none => missing (.subject (allowed.map SubjectKeyword.keyword))
  | some found =>
      if found ∈ allowed then
        skip
        let subject ← name .subjectName
        return ⟨found, subject.text, subject.position⟩
      else stop (.subjectNotAllowed found.keyword)

/-- The star or a list of properties. There is no list if the subject follows at
once. -/
def readFields : Reader FieldsNode := do
  if ← accept (.mark .star) then return .star
  else if (subjectKeywordOfToken? (← peek)).isSome then return .list []
  else return .list (← separated (.mark .comma) readProperty)

/-- The function of a select after its keyword, in parentheses. -/
def readFunction : Reader Name := do
  let _ ← expect (.mark .leftParen)
  let position ← place
  match ← peek with
  | .identifier text =>
      skip
      let _ ← expect (.mark .rightParen)
      return ⟨text, position⟩
  | _ => missing .functionName

def isClipboard (word : String) : Bool :=
  Text.sameWord word "clipboard"

/-- The format of an output clause: a word other than `clipboard`. -/
def readFormat : Reader (Option Name) := do
  let position ← place
  match ← peek with
  | .identifier word =>
      if isClipboard word then return none
      else
        skip
        return some ⟨word, position⟩
  | _ => return none

/-- Where an output clause sends the result. -/
def readTarget : Reader (Option OutputTarget) := do
  match ← peek with
  | .identifier word =>
      if isClipboard word then
        skip
        return some .clipboard
      else return none
  | .string path =>
      skip
      return some (.path path)
  | _ => return none

/-- The output clause, if there is one. It names a format, a target or both. -/
def readOutput : Reader (Option OutputNode) := do
  let position ← place
  if ← accept (.keyword .output) then
    let format ← readFormat
    let target ← readTarget
    if format.isNone && target.isNone then missing .output
    else return some { format, target, position }
  else return none

/-- A select from its keyword on. -/
def readSelect : Reader SelectNode := do
  let position ← keyword .select
  let fields ← readFields
  let subject ← readSubject [.from, .within, .at]
  let predicates ← readWhere
  let sorters ← optional .order do
    let _ ← keyword .by
    separated (.mark .comma) readSorter
  let limit ← optional .limit readValue
  let page ← optional .page readValue
  let group ← optional .group do
    let _ ← keyword .by
    readProperty
  let function ← optional .function readFunction
  let output ← readOutput
  return { fields, subject, predicates, sorters, limit, page, group, function, output, position }

def readUpdate : Reader UpdateNode := do
  let position ← keyword .update
  let subject ← readSubject [.from, .at]
  let setters ← readSetters
  let predicates ← readWhere
  return { subject, setters, predicates, position }

def readDelete : Reader DeleteNode := do
  let position ← keyword .delete
  let subject ← readSubject [.from, .at]
  let predicates ← readWhere
  return { subject, predicates, position }

def readInsert : Reader InsertNode := do
  let position ← keyword .insert
  let _ ← keyword .into
  let collection ← name .collectionName
  let setters ← readSetters
  let identifier ← optional .identified do
    let _ ← keyword .by
    readValue
  return { collection := ⟨.from, collection.text, collection.position⟩
           setters, identifier, position }

def readShow : Reader ShowNode := do
  let position ← keyword .show
  match ← peek with
  | .identifier word =>
      if Text.sameWord word "collections" then skip else missing .collections
  | _ => missing .collections
  let subject ←
    if (subjectKeywordOfToken? (← peek)).isSome then
      some <$> readSubject [.from, .within, .at]
    else pure none
  let predicates ← readWhere
  return { subject, predicates, position }

def readStatement : Reader Statement := do
  match ← peek with
  | .keyword .select => return .select (← readSelect)
  | .keyword .update => return .update (← readUpdate)
  | .keyword .delete => return .delete (← readDelete)
  | .keyword .insert => return .insert (← readInsert)
  | .keyword .show => return .show (← readShow)
  | _ => missing .statement

/-- A whole statement, with at most one semicolon after it and nothing else. -/
def readWhole : Reader Statement := do
  let statement ← readStatement
  let _ ← accept (.mark .semicolon)
  match ← peek with
  | .endOfInput => return statement
  | found => stop (.afterStatement found)

/-- A complaint as an error with its place. The place after the last token is
the end of the text. -/
def Complaint.toError (finish : Position) (complaint : Complaint) : SyntaxError :=
  match complaint.rest with
  | [] => ⟨complaint.cause, finish, none⟩
  | lexeme :: _ => ⟨complaint.cause, lexeme.position, some lexeme.text⟩

/-- The statement that tokens spell. -/
def Statement.ofTokens (tokens : Tokens) : Except SyntaxError Statement :=
  match readWhole.run tokens.lexemes with
  | .ok (statement, _) => .ok statement
  | .error complaint => .error (complaint.toError tokens.finish)

/-- The statement that a text spells, before any check of its meaning. -/
def Statement.ofText (text : String) : Except SyntaxError Statement := do
  Statement.ofTokens (← scan text)

end DocQuery.Grammar
