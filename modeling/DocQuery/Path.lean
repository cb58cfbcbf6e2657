import DocQuery.Text.Blank
import DocQuery.Text.Split
/-!
Slash-delimited paths in the store. Collections and documents alternate along a path, so a path
with an odd number of names leads to a collection and one with an even number to a document.
-/
namespace DocQuery.Path

/-- The names along a path, with an empty one wherever two slashes meet or a
slash ends it. -/
def segments (path : String) : List String :=
  Text.split '/' path

/-- The number of names along a path, empty ones apart. -/
def depth (path : String) : Nat :=
  ((segments path).filter (· ≠ "")).length

def trim (path : String) : String :=
  Text.trimChar '/' path

/-- A document is at an even depth. -/
def isDocument (path : String) : Bool :=
  depth path % 2 == 0

/-- The path before the last slash. -/
def parent? (path : String) : Option String :=
  let names := segments path
  if names.length ≤ 1 then none else some (Text.join '/' names.dropLast)

/-- The text after the last slash, or the whole path if it has none. -/
def name (path : String) : String :=
  (segments path).getLast (Text.split_ne_nil '/' path)

def child (path name : String) : String :=
  path ++ "/" ++ name

end DocQuery.Path
