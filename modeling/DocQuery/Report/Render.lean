import DocQuery.Report.Csv
import DocQuery.Selection.Arrangement
/-!
Results as text: as JSON over several lines, or as a table of all records.
-/
namespace DocQuery.ResultSet

def json (result : ResultSet) : String :=
  result.toValue.pretty

def csv (result : ResultSet) : String :=
  Csv.ofTable (Table.ofRecords result.rows)

/-- The result in a format. -/
def render (result : ResultSet) : Format → String
  | .json => result.json
  | .csv => result.csv

end DocQuery.ResultSet
