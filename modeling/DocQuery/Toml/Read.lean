import DocQuery.Toml.Quoted
/-!
TOML documents as tables. A document is read line by line; the only lines that go on are those of
arrays and of texts between three quotes. Nothing is kept of a document with a mistake.
-/
namespace DocQuery.Toml

/-- Reads something from the front of a text, or finds that it is not there. -/
abbrev Reader (α : Type) := StateT (List Char) Option α

namespace Reader

/-- The next character, which stays unread. -/
def peek : Reader (Option Char) :=
  return (← get).head?

def char (wanted : Char) : Reader Unit := do
  match ← get with
  | c :: rest => if c = wanted then set rest else failure
  | [] => failure

def blanks : Reader Unit :=
  modify (List.dropWhile fun c => c == ' ' || c == '\t')

def comment : Reader Unit := do
  match ← get with
  | '#' :: rest => set (rest.dropWhile isLineChar)
  | _ => return

def lineEnd : Reader Unit := do
  match ← get with
  | [] => return
  | '\n' :: rest => set rest
  | '\r' :: '\n' :: rest => set rest
  | _ => failure

/-- Passes over white space and a comment up to the end of the line. -/
def restOfLine : Reader Unit := do
  blanks
  comment
  lineEnd

/-- Passes over white space, comments and the ends of lines. The budget bounds
the lines. -/
def layout : Nat → Reader Unit
  | 0 => return
  | budget + 1 => do
      blanks
      comment
      match ← get with
      | '\n' :: rest => set rest; layout budget
      | '\r' :: '\n' :: rest => set rest; layout budget
      | _ => return

def gap : Reader Unit := do
  layout ((← get).length + 1)

end Reader

/-- A character of a key without quotes. -/
def isKeyChar (c : Char) : Bool :=
  c.isAlphanum || c == '_' || c == '-'

def readString : Reader String := do
  match ← get with
  | c :: rest =>
      if c = '"' ∨ c = '\'' then
        match readQuoted c rest with
        | some (text, rest) => set rest; return String.ofList text
        | none => failure
      else failure
  | [] => failure

/-- Reads one part of a key. A quoted one is on one line. -/
def readKeyPart : Reader String := do
  match ← get with
  | c :: rest =>
      if c = '"' ∨ c = '\'' then
        match readLineText c (rest.length + 1) rest with
        | some (text, rest) => set rest; return String.ofList text
        | none => failure
      else if isKeyChar c then
        set ((c :: rest).dropWhile isKeyChar)
        return String.ofList ((c :: rest).takeWhile isKeyChar)
      else failure
  | [] => failure

/-- The number of parts a key may not reach, and of brackets inside each
other. -/
def maxDepth : Nat :=
  80

/-- Reads the parts of a key with points between them. The budget bounds the
parts. -/
def readKeyParts : Nat → Reader (List String)
  | 0 => failure
  | budget + 1 => do
      Reader.blanks
      let part ← readKeyPart
      Reader.blanks
      if (← Reader.peek) = some '.' then
        Reader.char '.'
        return part :: (← readKeyParts budget)
      else return [part]

def readKey : Reader (List String) :=
  readKeyParts (maxDepth - 1)

/-- Reads a value that is neither array nor table. -/
def readScalar : Reader Node := do
  match ← Reader.peek with
  | some '"' => return .string (← readString)
  | some '\'' => return .string (← readString)
  | _ =>
      let (word, rest) := takeScalar (← get)
      match scalar? word with
      | some node => set rest; return node
      | none => failure

/-- Reads the items of an array after its bracket. The budget bounds the
items. -/
def readItems (item : Reader Node) : Nat → Reader (List Node)
  | 0 => failure
  | budget + 1 => do
      Reader.gap
      if (← Reader.peek) = some ']' then
        Reader.char ']'
        return []
      else
        let first ← item
        Reader.gap
        if (← Reader.peek) = some ',' then
          Reader.char ','
          return first :: (← readItems item budget)
        else
          Reader.char ']'
          return [first]

/-- Reads a key with its value. -/
def readPair (value : Reader Node) : Reader (List String × Node) := do
  let key ← readKey
  Reader.char '='
  Reader.blanks
  let node ← value
  Reader.blanks
  return (key, node)

/-- Reads the pairs of a table between braces. The budget bounds the pairs. -/
def readPairs (value : Reader Node) : Nat → Reader (List (List String × Node))
  | 0 => failure
  | budget + 1 => do
      let pair ← readPair value
      if (← Reader.peek) = some ',' then
        Reader.char ','
        return pair :: (← readPairs value budget)
      else
        Reader.char '}'
        return [pair]

/-- Reads a table between braces after the first one. -/
def readInline (value : Reader Node) : Reader Node := do
  Reader.blanks
  if (← Reader.peek) = some '}' then
    Reader.char '}'
    return .table .inline []
  else
    let pairs ← readPairs value ((← get).length + 1)
    let entries ← pairs.foldlM (fun entries pair => Entries.assign pair.1 pair.2 entries) []
    return .table .inline entries

/-- Reads a value with at most so many brackets and braces inside each other. -/
def readValue : Nat → Reader Node
  | 0 => do
      match ← Reader.peek with
      | some '[' => failure
      | some '\x7b' => failure
      | _ => readScalar
  | depth + 1 => do
      match ← Reader.peek with
      | some '[' =>
          Reader.char '['
          return .array (← readItems (readValue depth) ((← get).length + 1))
      | some '\x7b' =>
          Reader.char '\x7b'
          readInline (readValue depth)
      | _ => readScalar

inductive Line where
  | blank
  | header (path : List String)
  | row (path : List String)
  | pair (path : List String) (node : Node)

def readLine : Reader Line := do
  Reader.blanks
  match ← get with
  | '[' :: '[' :: rest =>
      set rest
      let path ← readKey
      Reader.char ']'
      Reader.char ']'
      Reader.restOfLine
      return .row path
  | '[' :: rest =>
      set rest
      let path ← readKey
      Reader.char ']'
      Reader.restOfLine
      return .header path
  | c :: _ =>
      if c = '#' ∨ c = '\n' ∨ c = '\r' then
        Reader.restOfLine
        return .blank
      else
        let (path, node) ← readPair (readValue (maxDepth - 1))
        Reader.restOfLine
        return .pair path node
  | [] => return .blank

/-- A document in the making: its tables, and the path of the last header. -/
structure Draft where
  root : Entries
  current : List String

/-- Takes a line into a document. -/
def Draft.add (draft : Draft) : Line → Option Draft
  | .blank => some draft
  | .header path => do
      return ⟨← draft.root.applyHeader path Entries.openTable, path⟩
  | .row path => do
      return ⟨← draft.root.applyHeader path Entries.openRow, path⟩
  | .pair path node => do
      return { draft with root := ← draft.root.assignBelow draft.current path node }

/-- Reads the lines of a document. The budget bounds their number. -/
def readLines : Nat → Draft → Reader Draft
  | 0, draft => return draft
  | budget + 1, draft => do
      if (← get).isEmpty then return draft
      else
        match draft.add (← readLine) with
        | some draft => readLines budget draft
        | none => failure

/-- The table that a document is. A byte order mark before it does not count. -/
def Entries.ofText? (text : String) : Option Entries :=
  let chars := match text.toList with
    | '\uFEFF' :: rest => rest
    | chars => chars
  ((readLines (chars.length + 1) ⟨[], []⟩).run' chars).map Draft.root

end DocQuery.Toml
