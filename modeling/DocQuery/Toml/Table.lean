/-!
The tables of a TOML document. Headers and dotted keys open the tables on the way to what they name.
No key is given twice, no table is opened by two headers, and dotted keys only ever reach into
tables that dotted keys have opened.
-/
namespace DocQuery.Toml

inductive Origin where
  /-- By a header of its own. -/
  | header
  /-- On the way to a header. -/
  | implicit
  /-- By a dotted key. -/
  | dotted
  /-- By braces, which close it for good. -/
  | inline
  deriving DecidableEq, Repr

/-- A value of a document. Of floats and moments in time only the kind is
kept. -/
inductive Node where
  | string (text : String)
  | integer (n : Int)
  | float
  | bool (b : Bool)
  | moment
  | array (items : List Node)
  | table (origin : Origin) (entries : List (String × Node))
  /-- The tables that headers in double brackets open one after the other. -/
  | tables (rows : List (List (String × Node)))
  deriving Repr, Inhabited

abbrev Entries := List (String × Node)

def Entries.replace (key : String) (node : Node) : Entries → Entries
  | [] => []
  | (k, old) :: rest =>
      if k = key then (k, node) :: rest else (k, old) :: Entries.replace key node rest

/-- Who goes along a path: a header may pass every table that is not closed, a
dotted key only tables without a header of their own. -/
inductive Passage where
  | header
  | key
  deriving DecidableEq

def Passage.enters : Passage → Origin → Bool
  | .header, origin => origin != .inline
  | .key, origin => origin == .implicit || origin == .dotted

/-- How a table is opened that is not there yet. -/
def Passage.opens : Passage → Origin
  | .header => .implicit
  | .key => .dotted

/-- Changes the table at the end of a path below a table, and opens those on
the way that are missing. Of several tables under one key the last one is
entered. -/
def Entries.change (passage : Passage) (edit : Origin → Entries → Option Entries) :
    Origin → List String → Entries → Option Entries
  | origin, [], entries => edit origin entries
  | _, key :: path, entries =>
      match entries.lookup key with
      | none => do
          let opened ← Entries.change passage edit passage.opens path []
          return entries ++ [(key, .table passage.opens opened)]
      | some (.table origin below) =>
          if passage.enters origin then do
            let changed ← Entries.change passage edit origin path below
            return entries.replace key (.table origin changed)
          else none
      | some (.tables rows) => do
          let changed ← Entries.change passage edit .header path (rows.getLast?.getD [])
          return entries.replace key (.tables (rows.dropLast ++ [changed]))
      | some _ => none

def Entries.add (key : String) (node : Node) (entries : Entries) : Option Entries :=
  if (entries.lookup key).isSome then none else some (entries ++ [(key, node)])

/-- Opens the table of a header. It may have been passed by headers before. -/
def Entries.openTable (key : String) (entries : Entries) : Option Entries :=
  match entries.lookup key with
  | none => some (entries ++ [(key, .table .header [])])
  | some (.table .implicit below) => some (entries.replace key (.table .header below))
  | some _ => none

/-- Opens one more of the tables under a header in double brackets. -/
def Entries.openRow (key : String) (entries : Entries) : Option Entries :=
  match entries.lookup key with
  | none => some (entries ++ [(key, .tables [[]])])
  | some (.tables rows) => some (entries.replace key (.tables (rows ++ [[]])))
  | some _ => none

def splitPath (path : List String) : Option (List String × String) :=
  path.getLast?.map fun last => (path.dropLast, last)

/-- Gives a dotted key a value. The table that it ends in must have been opened
by a dotted key, unless the key has only one part. -/
def Entries.assign (path : List String) (node : Node) (entries : Entries) : Option Entries := do
  let (way, key) ← splitPath path
  let edit (origin : Origin) (below : Entries) : Option Entries :=
    if way.isEmpty || origin == .dotted then below.add key node else none
  entries.change .key edit .header way

def Entries.applyHeader (path : List String) (edit : String → Entries → Option Entries)
    (entries : Entries) : Option Entries := do
  let (way, key) ← splitPath path
  entries.change .header (fun _ => edit key) .header way

/-- Gives a dotted key a value in the table of the current header. -/
def Entries.assignBelow (current path : List String) (node : Node) (entries : Entries) :
    Option Entries :=
  entries.change .header (fun _ below => below.assign path node) .header current

end DocQuery.Toml
