import DocQuery.Document.Field
import DocQuery.Value.Json
/-!
Records as a table. Every record is flattened, the columns are the flattened names in the order in
which they are first seen, and a cell is empty where a record has no such field or holds null. A
record that is no object has the one column `value`.
-/
namespace DocQuery

/-- Columns with their names, and the cells of every row below them. -/
structure Table where
  header : List String
  rows : List (List String)
  deriving DecidableEq, Repr

namespace Table

/-- The column of a record that is no object. -/
def valueColumn : String :=
  "value"

def flatRow : Value → Fields
  | .object fields => Fields.flatten fields
  | other => [(valueColumn, other)]

/-- The text of a value in a cell. -/
def cell : Value → String
  | .null => ""
  | .string text => text
  | other => other.compact

/-- The cell of a row under a column. -/
def cellAt (row : Fields) (column : String) : String :=
  match row.get? column with
  | some value => cell value
  | none => ""

def columns (rows : List Fields) : List String :=
  (rows.flatMap Fields.keys).eraseDups

def ofRecords (records : List Value) : Table :=
  let rows := records.map flatRow
  let header := columns rows
  { header, rows := rows.map fun row => header.map (cellAt row) }

end Table

end DocQuery
