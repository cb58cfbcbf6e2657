import DocQuery.Text.Blank
import DocQuery.Text.Letter
/-!
Environments: variables and their values. A file can add variables, one `NAME=value` after the
other. A value may be quoted, which lets it go on over several lines, and unless it stands between
single quotes it may refer to variables by a dollar sign.
-/
namespace DocQuery

abbrev Environment := List (String × String)

namespace Environment

def get? (environment : Environment) (name : String) : Option String :=
  environment.lookup name

/-- The environment with one more variable. One that is there keeps its
value. -/
def add (environment : Environment) (name value : String) : Environment :=
  if (environment.get? name).isSome then environment else environment ++ [(name, value)]

/-- Where a file is between two characters, as far as the ends of lines are
concerned. -/
inductive Place where
  | plain
  /-- Behind one character of white space. -/
  | blank
  | escape
  | quoted (quote : Char)
  | quotedEscape (quote : Char)
  deriving DecidableEq

/-- The place behind a character outside of quotes. -/
def Place.behind (c : Char) : Place :=
  if c = '\\' then .escape else if c = '"' ∨ c = '\'' then .quoted c else .plain

/-- The place behind a character. -/
def Place.next (place : Place) (c : Char) : Place :=
  match place with
  | .plain => if Text.isBlank c && c != '\n' && c != '\r' then .blank else .behind c
  | .blank => .behind c
  | .escape => .plain
  | .quoted quote =>
      if c = '\\' then .quotedEscape quote else if c = quote then .plain else .quoted quote
  | .quotedEscape quote => .quoted quote

/-- The first line of a file and what follows it. A line ends outside of quotes,
and a comment behind white space does not belong to it. A file may not end
anywhere else than a line may. -/
def takeLine (place : Place) : List Char → Option (List Char × List Char)
  | [] => if place = .plain then some ([], []) else none
  | c :: rest =>
      if place = .blank ∧ c = '#' then some ([], (rest.dropWhile (· != '\n')).drop 1)
      else if c = '\n' ∧ place.next c = .plain then some ([], rest)
      else (takeLine (place.next c) rest).map fun (line, after) => (c :: line, after)

/-- Whether the first line of a file is a comment as a whole. -/
def startsWithComment (text : List Char) : Bool :=
  ((text.takeWhile (· != '\n')).dropWhile Text.isBlank).head? == some '#'

/-- The lines of a file. The budget bounds their number. -/
def linesWithin : Nat → List Char → Option (List (List Char))
  | 0, _ => some []
  | budget + 1, text =>
      if text.isEmpty then some []
      else if startsWithComment text then
        linesWithin budget ((text.dropWhile (· != '\n')).drop 1)
      else do
        let (line, rest) ← takeLine .plain text
        return line :: (← linesWithin budget rest)

/-- What a value is in the middle of. Inside double quotes, escapes and
references are read as outside of them. -/
inductive Mode where
  | plain
  | single
  | double
  | escape (inDouble : Bool)
  | reference (inDouble : Bool) (name : List Char)
  | braces (inDouble : Bool) (name : List Char)
  /-- Behind the white space after a value, where only a comment may follow. -/
  | ended

/-- The mode behind an escape or a reference. -/
def Mode.back (inDouble : Bool) : Mode :=
  if inDouble then .double else .plain

/-- The character that an escaped one stands for. -/
def escaped? (c : Char) : Option Char :=
  if c = 'n' then some '\n'
  else if c = '\\' ∨ c = '\'' ∨ c = '"' ∨ c = '$' ∨ c = ' ' then some c
  else none

/-- The text of a variable: its name and its value with an equals sign between
them. -/
def assignmentText (assignment : String × String) : List Char :=
  assignment.1.toList ++ '=' :: assignment.2.toList

/-- What a reference stands for: what follows the name and an equals sign in the
text of a variable, or nothing if no variable has that text. A name between
braces may itself go on behind the equals sign of a variable, and then stands
for the part of its value behind the next one. -/
def refer (environment : Environment) (name : List Char) : List Char :=
  (environment.findSome? fun assignment =>
    (name ++ ['=']).isPrefixOf? (assignmentText assignment)).getD []

/-- A character that a name without braces may have. -/
def isReferenceChar (c : Char) : Bool :=
  Text.isLetter c || Text.isNumeral c

/-- Reads a value with its quotes, escapes and references. The character that
ends a name without braces stands for itself, even a quote. -/
def readValue (environment : Environment) : Mode → List Char → Option (List Char)
  | .plain, [] => some []
  | .ended, [] => some []
  | .escape false, [] => some []
  | .reference false name, [] => some (environment.refer name)
  | _, [] => none
  | .plain, c :: rest =>
      if c = '$' then readValue environment (.reference false []) rest
      else if c = '\'' then readValue environment .single rest
      else if c = '"' then readValue environment .double rest
      else if c = '\\' then readValue environment (.escape false) rest
      else if c = ' ' ∨ c = '\t' then readValue environment .ended rest
      else (readValue environment .plain rest).map (c :: ·)
  | .single, c :: rest =>
      if c = '\'' then readValue environment .plain rest
      else (readValue environment .single rest).map (c :: ·)
  | .double, c :: rest =>
      if c = '$' then readValue environment (.reference true []) rest
      else if c = '"' then readValue environment .plain rest
      else if c = '\\' then readValue environment (.escape true) rest
      else (readValue environment .double rest).map (c :: ·)
  | .escape inDouble, c :: rest => do
      let plain ← escaped? c
      return plain :: (← readValue environment (.back inDouble) rest)
  | .reference inDouble name, c :: rest =>
      if isReferenceChar c then readValue environment (.reference inDouble (name ++ [c])) rest
      else if c = '\x7b' ∧ name = [] then readValue environment (.braces inDouble []) rest
      else if c = '$' then
        (readValue environment (.reference inDouble []) rest).map (environment.refer name ++ ·)
      else
        (readValue environment (.back inDouble) rest).map (environment.refer name ++ c :: ·)
  | .braces inDouble name, c :: rest =>
      if c = '\x7d' then
        (readValue environment (.back inDouble) rest).map (environment.refer name ++ ·)
      else readValue environment (.braces inDouble (name ++ [c])) rest
  | .ended, c :: rest =>
      if c = ' ' ∨ c = '\t' then readValue environment .ended rest
      else if c = '#' then some []
      else none

def isNameStart (c : Char) : Bool :=
  c.isAlpha || c == '_'

def isNameChar (c : Char) : Bool :=
  c.isAlphanum || c == '_' || c == '.'

/-- The name of a variable in front of a text, and what follows it and the white
space there. -/
def takeName (text : List Char) : Option (String × List Char) :=
  if text.head?.any isNameStart then
    some (String.ofList (text.takeWhile isNameChar),
      (text.dropWhile isNameChar).dropWhile Text.isBlank)
  else none

/-- What follows an equals sign and the white space behind it. -/
def afterEquals : List Char → Option (List Char)
  | '=' :: rest => some (rest.dropWhile Text.isBlank)
  | _ => none

/-- The name of a variable with what follows the equals sign. The word `export`
in front of a name does not count, but it may itself be the name. -/
def takeAssignment (line : List Char) : Option (String × List Char) := do
  let (name, rest) ← takeName line
  match afterEquals rest with
  | some value => return (name, value)
  | none =>
      if name = "export" then do
        let (name, rest) ← takeName rest
        return (name, ← afterEquals rest)
      else none

/-- The environment with the variable of a line, if there is one. -/
def addLine (environment : Environment) (line : List Char) : Option Environment :=
  match Text.trimWhere Text.isBlank line with
  | [] => some environment
  | '#' :: _ => some environment
  | text => do
      let (name, rest) ← takeAssignment text
      let value ← if rest.head? = some '#' then some [] else readValue environment .plain rest
      return environment.add name (String.ofList value)

/-- The environment with the variables of a file. A byte order mark before it
does not count. -/
def addFile (environment : Environment) (text : String) : Option Environment := do
  let chars := match text.toList with
    | '\uFEFF' :: rest => rest
    | chars => chars
  (← linesWithin (chars.length + 1) chars).foldlM addLine environment

end Environment

end DocQuery
