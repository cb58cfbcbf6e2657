import DocQuery.Output.Destination
import DocQuery.Text.Split
/-!
Files and the folders they are in. A file is written together with the folders on the way to it
that are missing, and those stay even if the file itself cannot be written.
-/
namespace DocQuery

/-- The names that lead from the root to a file or folder. -/
abbrev Route := List String

/-- The files and folders below a root, which is itself a folder. -/
structure FileTree where
  folders : List Route
  files : List (Route × String)
  deriving Repr

namespace FileTree

/-- The longest name of a file or folder, in bytes. -/
def maxName : Nat :=
  255

/-- The longest path that leads to a file or folder, in bytes. -/
def maxPath : Nat :=
  4095

/-- Whether a name along a path leads nowhere else. -/
def staysThere (name : String) : Bool :=
  name == "" || name == "."

/-- The names along a path that lead somewhere else. -/
def namesOf (path : String) : List String :=
  (Text.split '/' path).filter fun name => !staysThere name

/-- The segments of a path up to the last one that leads somewhere else. -/
def upToLastName (segments : List String) : List String :=
  (segments.reverse.dropWhile staysThere).reverse

/-- The path to the folder of a file. It is the path without its last name, and
ends in a name again. -/
def folderPath (path : String) : String :=
  Text.join '/' (upToLastName (upToLastName (Text.split '/' path)).dropLast)

/-- Every folder on a route, the last name of the route included. -/
def foldersAlong (route : Route) : List Route :=
  (List.range (route.length + 1)).map route.take

/-- A tree without files in which some paths lead to folders. -/
def ofFolders (paths : List String) : FileTree where
  folders := paths.flatMap fun path => foldersAlong (namesOf path)
  files := []

def isFolder (tree : FileTree) (route : Route) : Bool :=
  route.isEmpty || tree.folders.contains route

def text? (tree : FileTree) (route : Route) : Option String :=
  tree.files.lookup route

/-- Whether a path can lead to a file or folder: it does not hold the character
with the code zero and is not too long. -/
def isUsable (path : String) : Bool :=
  !path.toList.contains '\x00' && path.utf8ByteSize ≤ maxPath

/-- Goes from a folder along names and makes the folders that are missing. A
name of two dots leads back up. The tree comes back as it is in the end, also if
a name cannot be a folder. -/
def makeFolders (tree : FileTree) (route : Route) :
    List String → FileTree × Except FileFault Route
  | [] => (tree, .ok route)
  | name :: rest =>
      let next := route ++ [name]
      if name = ".." then makeFolders tree route.dropLast rest
      else if maxName < name.utf8ByteSize then (tree, .error (.badName name))
      else if (tree.text? next).isSome then (tree, .error (.notAFolder name))
      else if tree.isFolder next then makeFolders tree next rest
      else makeFolders { tree with folders := tree.folders ++ [next] } next rest

def put (tree : FileTree) (route : Route) (text : String) : FileTree :=
  { tree with files := tree.files.filter (fun file => file.1 != route) ++ [(route, text)] }

/-- Writes a text into the file of a name in a folder. A file is not written
under the name of a folder. -/
def writeIn (tree : FileTree) (folder : Route) (name text : String) :
    FileTree × Except FileFault Unit :=
  if name = "" ∨ name = "." ∨ name = ".." then (tree, .error (.isAFolder name))
  else if maxName < name.utf8ByteSize then (tree, .error (.badName name))
  else if tree.isFolder (folder ++ [name]) then (tree, .error (.isAFolder name))
  else (tree.put (folder ++ [name]) text, .ok ())

/-- Writes a text into the file at a path. If only the path of the file itself
is not usable, its folders are made all the same. -/
def write (tree : FileTree) (path text : String) : FileTree × Except FileFault Unit :=
  let folders := folderPath path
  if isUsable folders then
    match tree.makeFolders [] (namesOf folders) with
    | (tree, .error fault) => (tree, .error fault)
    | (tree, .ok folder) =>
        if isUsable path then
          tree.writeIn folder (((Text.split '/' path).getLast?).getD "") text
        else (tree, .error (.badPath path))
  else (tree, .error (.badPath folders))

end FileTree

end DocQuery
