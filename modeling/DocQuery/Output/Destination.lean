import DocQuery.Text.Blank
/-!
Where a rendered result can go, and how the path of a file is found. A relative path is taken from
the output folder. A path that starts with a tilde and a slash is taken from the home folder, but
what follows may itself be absolute and then stands alone.
-/
namespace DocQuery

inductive Destination where
  | path (path : String)
  | clipboard
  deriving DecidableEq, Repr

/-- A destination as answers and messages name it. -/
def Destination.label : Destination → String
  | .path target => target
  | .clipboard => "clipboard"

/-- Why a destination cannot be reached. -/
inductive Unreachable where
  | noSink (destination : Destination)
  | noPath
  | noHome (path : String)
  | noClipboard
  deriving DecidableEq, Repr

inductive FileFault where
  | badPath (path : String)
  | badName (name : String)
  | notAFolder (name : String)
  | isAFolder (path : String)
  deriving DecidableEq, Repr

/-- Why a rendered result could not be delivered. -/
inductive SinkError where
  | unavailable (reason : Unreachable)
  | file (fault : FileFault)
  deriving DecidableEq, Repr

def Unreachable.message : Unreachable → String
  | .noSink destination => "no sink configured for " ++ destination.label
  | .noPath => "empty output path"
  | .noHome wanted => "cannot expand '" ++ wanted ++ "': HOME is not set"
  | .noClipboard => "no clipboard is available"

def FileFault.message : FileFault → String
  | .badPath path => "'" ++ path ++ "' cannot be the path of a file"
  | .badName name => "'" ++ name ++ "' cannot be the name of a file"
  | .notAFolder name => "'" ++ name ++ "' is not a folder"
  | .isAFolder path => "'" ++ path ++ "' is a folder"

def SinkError.message : SinkError → String
  | .unavailable reason => "Output destination unavailable: " ++ reason.message
  | .file fault => "IO error: " ++ fault.message

namespace FilePath

/-- An absolute path starts with a slash. -/
def isAbsolute (path : String) : Bool :=
  path.toList.head? == some '/'

/-- A path taken from another one. An absolute path stands alone, and one slash
comes between two paths unless the first one is empty or ends in a slash. -/
def join (left right : String) : String :=
  if isAbsolute right then right
  else if left.toList.getLast?.all (· == '/') then left ++ right
  else left ++ "/" ++ right

/-- The path of an output file below an output folder, with a home folder if
there is one. -/
def resolve (base : String) (home : Option String) (path : String) :
    Except SinkError String :=
  let fromBase (expanded : String) : String :=
    if isAbsolute expanded then expanded else join base expanded
  if Text.isBlankText path then .error (.unavailable .noPath)
  else match path.toList with
    | ['~'] =>
        match home with
        | some home => .ok (fromBase home)
        | none => .error (.unavailable (.noHome path))
    | '~' :: '/' :: rest =>
        match home with
        | some home => .ok (fromBase (join home (String.ofList rest)))
        | none => .error (.unavailable (.noHome path))
    | _ => .ok (fromBase path)

end FilePath

end DocQuery
