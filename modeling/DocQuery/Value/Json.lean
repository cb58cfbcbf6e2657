import DocQuery.Number.Shortest
import DocQuery.Value.Basic
/-!
Values as JSON text: in one line without spaces, or over several lines with an indent of two for
each level. Control characters are escaped, all other characters beyond ASCII stand as they are.
-/
namespace DocQuery

/-- Doubles have a point among their digits from `10 ^ -5` up to `10 ^ 16`. A
larger exponent has a sign, and a tie goes to the even digit. -/
def Number.style : Decimal.Style where
  lowest := -5
  highest := 15
  plus := true
  tieUp := false

def Number.render : Number → List Char
  | .integer n => Decimal.renderInteger n
  | .real x => x.render style

namespace Value

/-- How a character is written inside a JSON text. -/
def escape (c : Char) : List Char :=
  if c = '"' ∨ c = '\\' then ['\\', c]
  else if c = '\n' then ['\\', 'n']
  else if c = '\r' then ['\\', 'r']
  else if c = '\t' then ['\\', 't']
  else if c = '\x08' then ['\\', 'b']
  else if c = '\x0c' then ['\\', 'f']
  else if c.toNat < 0x20 then
    ['\\', 'u', '0', '0', Nat.digitChar (c.toNat / 16), Nat.digitChar (c.toNat % 16)]
  else [c]

def quote (text : String) : String :=
  String.ofList ('"' :: (text.toList.flatMap escape ++ ['"']))

mutual

def compact : Value → String
  | .null => "null"
  | .bool b => if b then "true" else "false"
  | .number n => String.ofList n.render
  | .string s => quote s
  | .array items => "[" ++ String.intercalate "," (compactItems items) ++ "]"
  | .object fields => "\x7b" ++ String.intercalate "," (compactFields fields) ++ "\x7d"

def compactItems : List Value → List String
  | [] => []
  | item :: rest => item.compact :: compactItems rest

def compactFields : List (String × Value) → List String
  | [] => []
  | (key, value) :: rest => (quote key ++ ":" ++ value.compact) :: compactFields rest

end

/-- The start of a new line at a level. -/
def newline (level : Nat) : String :=
  String.ofList ('\n' :: List.replicate (2 * level) ' ')

/-- The members of an array or object, each on a line of its own, between two
brackets. -/
def block (level : Nat) (opening closing : String) (members : List String) : String :=
  if members.isEmpty then opening ++ closing
  else opening ++ newline (level + 1) ++
    String.intercalate ("," ++ newline (level + 1)) members ++ newline level ++ closing

mutual

/-- A value over several lines, its first line at a level. -/
def indented (level : Nat) : Value → String
  | .null => "null"
  | .bool b => if b then "true" else "false"
  | .number n => String.ofList n.render
  | .string s => quote s
  | .array items => block level "[" "]" (indentedItems (level + 1) items)
  | .object fields => block level "\x7b" "\x7d" (indentedFields (level + 1) fields)

def indentedItems (level : Nat) : List Value → List String
  | [] => []
  | item :: rest => item.indented level :: indentedItems level rest

def indentedFields (level : Nat) : List (String × Value) → List String
  | [] => []
  | (key, value) :: rest =>
      (quote key ++ ": " ++ value.indented level) :: indentedFields level rest

end

def pretty (value : Value) : String :=
  value.indented 0

end Value

end DocQuery
