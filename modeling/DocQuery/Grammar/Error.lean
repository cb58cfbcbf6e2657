import DocQuery.Grammar.Token
/-!
What can be wrong with the text of a query. Every error has a place in the text, and most quote the
part of the text, or of the path it names, that they are about.
-/
namespace DocQuery

namespace Grammar

/-- What the reader of a statement was looking for. -/
inductive Expectation where
  | token (token : Token)
  | statement
  | collections
  | subject (keywords : List Keyword)
  | subjectName
  | collectionName
  | property
  | operator
  | value
  | numberAfterMinus
  | functionName
  | output

/-- What was looked for, as messages name it. -/
def Expectation.describe : Expectation → String
  | .token wanted => wanted.describe
  | .statement => "select, update, delete, insert or show"
  | .collections => "'collections'"
  | .subject keywords => String.intercalate " or " (keywords.map Keyword.word)
  | .subjectName => "subject name"
  | .collectionName => "collection name"
  | .property => "property name"
  | .operator => "comparison operator"
  | .value => "value"
  | .numberAfterMinus => "number after '-'"
  | .functionName => "function name"
  | .output => "output format, 'clipboard' or a file path"

end Grammar

namespace SyntaxError

/-- What is wrong with a text. -/
inductive Cause where
  | loneExclamationMark
  | unexpectedCharacter (c : Char)
  | unterminatedString
  | expected (expectation : Grammar.Expectation) (found : Grammar.Token)
  | subjectNotAllowed (keyword : Grammar.Keyword)
  | afterStatement (found : Grammar.Token)
  | notALiteral (name : String)
  | malformedNumber (digits : String)
  | numberOutOfRange (digits : String)
  | integerOutOfRange (digits : String)
  | notACount (clause : Grammar.Keyword)
  | pageOfNothing
  | whereOnDocument
  | noFields
  | unknownFunction (name : String)
  | unknownFormat (name : String)
  | whereRequired (statement : Grammar.Keyword)
  | identifierType
  | whereOnShow

def Cause.message : Cause → String
  | .loneExclamationMark => "Expected '=' after '!'"
  | .unexpectedCharacter c => "Unexpected character '" ++ String.singleton c ++ "'"
  | .unterminatedString => "Unterminated string"
  | .expected expectation found =>
      "Expected " ++ expectation.describe ++ ", found " ++ found.describe
  | .subjectNotAllowed keyword => "'" ++ keyword.word ++ "' is not allowed in this statement"
  | .afterStatement found => "Unexpected " ++ found.describe ++ " after end of statement"
  | .notALiteral name => "'" ++ name ++ "' is not a literal; quote it to use it as a string"
  | .malformedNumber digits => "Invalid number literal '" ++ digits ++ "'"
  | .numberOutOfRange digits => "Number literal '" ++ digits ++ "' is out of range"
  | .integerOutOfRange digits => "Integer literal '" ++ digits ++ "' is out of range"
  | .notACount clause => "'" ++ clause.word ++ "' expects a non-negative integer"
  | .pageOfNothing => "'page' expects a positive integer"
  | .whereOnDocument => "A select on a single document cannot have a where clause"
  | .noFields => "A select must name at least one field or '*'"
  | .unknownFunction name => "Unknown function '" ++ name ++ "', expected count or distinct"
  | .unknownFormat name => "Unknown output format '" ++ name ++ "', expected json or csv"
  | .whereRequired statement =>
      "'" ++ statement.word ++ "' on a collection requires a where clause"
  | .identifierType => "'identified by' expects a string or integer"
  | .whereOnShow => "'show collections' cannot have a where clause"

/-- A message followed by the place and the fragment it is about, as far as they
are known. -/
def locate (message : String) (position : Option Grammar.Position) (fragment : Option String) :
    String :=
  let place := match position with
    | some place => " at line " ++ Nat.repr place.line ++ ", column " ++ Nat.repr place.column
    | none => ""
  let quoted := match fragment with
    | some text => " near '" ++ text ++ "'"
    | none => ""
  message ++ place ++ quoted

end SyntaxError

/-- Something wrong with the text of a query. -/
structure SyntaxError where
  cause : SyntaxError.Cause
  position : Grammar.Position
  fragment : Option String

def SyntaxError.message (error : SyntaxError) : String :=
  SyntaxError.locate error.cause.message (some error.position) error.fragment

end DocQuery
