import DocQuery.Text.Case
/-!
The tokens of a query and where they stand in its text. A keyword may be written in any case; words
that matter in one place only, such as `collections` or `json`, are identifiers like any other.
-/
namespace DocQuery.Grammar

/-- A place in a text: the characters before it, and its line and column counted
from one. -/
structure Position where
  offset : Nat
  line : Nat
  column : Nat
  deriving DecidableEq, Repr, Inhabited

namespace Position

def start : Position :=
  ⟨0, 1, 1⟩

def next (position : Position) (c : Char) : Position :=
  if c = '\n' then ⟨position.offset + 1, position.line + 1, 1⟩
  else ⟨position.offset + 1, position.line, position.column + 1⟩

def after (position : Position) (text : List Char) : Position :=
  text.foldl next position

end Position

inductive Keyword where
  | select
  | update
  | delete
  | insert
  | show
  | from
  | within
  | at
  | where
  | and
  | order
  | by
  | limit
  | page
  | group
  | set
  | into
  | identified
  | function
  | output
  | asc
  | desc
  | true
  | false
  | null
  | in
  | notIn
  | arrayContains
  | arrayContainsAny
  | like
  deriving DecidableEq, Repr

namespace Keyword

/-- The spelling of a keyword in lower case. -/
def word : Keyword → String
  | .select => "select"
  | .update => "update"
  | .delete => "delete"
  | .insert => "insert"
  | .show => "show"
  | .from => "from"
  | .within => "within"
  | .at => "at"
  | .where => "where"
  | .and => "and"
  | .order => "order"
  | .by => "by"
  | .limit => "limit"
  | .page => "page"
  | .group => "group"
  | .set => "set"
  | .into => "into"
  | .identified => "identified"
  | .function => "function"
  | .output => "output"
  | .asc => "asc"
  | .desc => "desc"
  | .true => "true"
  | .false => "false"
  | .null => "null"
  | .in => "in"
  | .notIn => "not_in"
  | .arrayContains => "array_contains"
  | .arrayContainsAny => "array_contains_any"
  | .like => "like"

def all : List Keyword :=
  [.select, .update, .delete, .insert, .show, .from, .within, .at, .where, .and, .order, .by,
   .limit, .page, .group, .set, .into, .identified, .function, .output, .asc, .desc, .true,
   .false, .null, .in, .notIn, .arrayContains, .arrayContainsAny, .like]

/-- The keyword that a word spells in some case. -/
def ofWord? (word : String) : Option Keyword :=
  all.find? fun keyword => keyword.word == Text.foldWord word

end Keyword

inductive Mark where
  | equal
  | assign
  | notEqual
  | lessThan
  | lessThanOrEqual
  | greaterThan
  | greaterThanOrEqual
  | star
  | caret
  | comma
  | minus
  | semicolon
  | leftBracket
  | rightBracket
  | leftParen
  | rightParen
  deriving DecidableEq, Repr

def Mark.spelling : Mark → String
  | .equal => "=="
  | .assign => "="
  | .notEqual => "!="
  | .lessThan => "<"
  | .lessThanOrEqual => "<="
  | .greaterThan => ">"
  | .greaterThanOrEqual => ">="
  | .star => "*"
  | .caret => "^"
  | .comma => ","
  | .minus => "-"
  | .semicolon => ";"
  | .leftBracket => "["
  | .rightBracket => "]"
  | .leftParen => "("
  | .rightParen => ")"

/-- A token, or the end of the text. A number keeps the digits it was written
with. -/
inductive Token where
  | keyword (k : Keyword)
  | mark (m : Mark)
  | identifier (name : String)
  | number (digits : String)
  | string (text : String)
  | endOfInput
  deriving DecidableEq, Repr

/-- A token as messages name it. -/
def Token.describe : Token → String
  | .keyword k => "'" ++ k.word ++ "'"
  | .mark m => "'" ++ m.spelling ++ "'"
  | .identifier name => "identifier '" ++ name ++ "'"
  | .number digits => "number " ++ digits
  | .string text => "string \"" ++ text ++ "\""
  | .endOfInput => "end of input"

/-- A token with its place and the text it was read from. -/
structure Lexeme where
  token : Token
  position : Position
  text : String
  deriving DecidableEq, Repr

end DocQuery.Grammar
