import DocQuery.Value.Json
/-!
What a statement has come to, and how that is shown as text.
-/
namespace DocQuery

/-- What a statement has come to. -/
inductive Outcome where
  /-- The result of a select. -/
  | documents (value : Value)
  /-- The result of a select as a table. -/
  | table (text : String)
  /-- So many selected documents went to a destination. -/
  | saved (count : Nat) (destination : String)
  /-- So many documents were written, and the writes to some paths failed. -/
  | written (count : Nat) (failed : List String)
  /-- The names of collections. -/
  | collections (names : List String)

namespace Outcome

/-- The failed paths as a field, which is left out when there are none. -/
def failedField (failed : List String) : List (String × Value) :=
  if failed.isEmpty then [] else [("failed", .array (failed.map .string))]

/-- An outcome as text: a table as it is, everything else as JSON. -/
def display : Outcome → String
  | .documents value => value.pretty
  | .table text => text
  | .saved count destination =>
      (Value.object [("count", .number (.integer count)),
        ("destination", .string destination)]).pretty
  | .written count failed =>
      (Value.object (("count", .number (.integer count)) :: failedField failed)).pretty
  | .collections names => (Value.array (names.map .string)).pretty

end Outcome

end DocQuery
