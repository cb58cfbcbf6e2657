import DocQuery.Report.Table
/-!
Tables as comma-separated text. A field is quoted when it holds a comma, a quote or the end of a
line, and a quote inside is written twice. A record of one empty field is written as an empty
quoted field, so that no record is an empty line.
-/
namespace DocQuery.Csv

/-- The characters that a field cannot hold without quotes around it. -/
def isSpecial (c : Char) : Bool :=
  c == '"' || c == ',' || c == '\n' || c == '\r'

def quotedChar (c : Char) : List Char :=
  if c = '"' then ['"', '"'] else [c]

def quoted (text : List Char) : List Char :=
  '"' :: (text.flatMap quotedChar ++ ['"'])

/-- A field, quoted if it has to be. -/
def field (text : String) : List Char :=
  if text.toList.any isSpecial then quoted text.toList else text.toList

/-- A record with the end of its line. -/
def record (fields : List String) : List Char :=
  if fields = [""] then quoted [] ++ ['\n']
  else List.intercalate [','] (fields.map field) ++ ['\n']

def encode (records : List (List String)) : String :=
  String.ofList (records.flatMap record)

/-- A table with its header. Without columns there is nothing to write. -/
def ofTable (table : Table) : String :=
  if table.header.isEmpty then "" else encode (table.header :: table.rows)

end DocQuery.Csv
