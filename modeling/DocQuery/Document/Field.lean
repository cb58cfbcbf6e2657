import DocQuery.Text.Split
import DocQuery.Value.Basic
/-!
Fields at dotted paths. A path names a field of an object, then a field of the object there, and so
on; its segments may be any text, the empty one included. A document can be flattened into one
level of dotted keys, and a dotted key with a value expands to the nested object that holds it.
-/
namespace DocQuery

def fieldPath (path : String) : List String :=
  Text.split '.' path

/-- The value found by following field names from a value. -/
def Value.follow : List String → Value → Option Value
  | [], value => some value
  | name :: rest, .object fields => (Fields.get? fields name).bind (follow rest)
  | _ :: _, _ => none

/-- The value at a dotted path below a value. -/
def Value.field? (value : Value) (path : String) : Option Value :=
  value.follow (fieldPath path)

namespace Fields

/-- The value at a dotted path. The first segment is looked up among the fields
and the rest of the path below the value found there. -/
def field? (fields : Fields) (path : String) : Option Value :=
  match fieldPath path with
  | [] => none
  | name :: rest => (fields.get? name).bind (Value.follow rest)

/-- A value inside objects of one field each, named by the segments. -/
def nest : List String → Value → Value
  | [], value => value
  | name :: rest, value => .object [(name, nest rest value)]

/-- The object that holds one value at a dotted path. -/
def expand (path : String) (value : Value) : Fields :=
  match fieldPath path with
  | [] => []
  | name :: rest => [(name, nest rest value)]

/-- A key inside the object at a path. Under the empty path it stands alone. -/
def dotted (path key : String) : String :=
  if path = "" then key else path ++ "." ++ key

mutual

/-- Adds what a field holds to the flattened fields: the fields of a non-empty
object, or the value itself. -/
def flattenValue (flat : Fields) (key : String) : Value → Fields
  | .object fields =>
      if fields.isEmpty then flat.set key (.object fields) else flattenFields flat key fields
  | .null => flat.set key .null
  | .bool b => flat.set key (.bool b)
  | .number n => flat.set key (.number n)
  | .string s => flat.set key (.string s)
  | .array items => flat.set key (.array items)

/-- Adds the fields of the object at a path to the flattened fields. -/
def flattenFields (flat : Fields) (path : String) : List (String × Value) → Fields
  | [] => flat
  | (key, value) :: rest => flattenFields (flattenValue flat (dotted path key) value) path rest

end

/-- The fields with nested objects replaced by dotted keys. Arrays and empty
objects stay values. -/
def flatten (fields : Fields) : Fields :=
  flattenFields [] "" fields

end Fields

theorem fieldPath_ne_nil (path : String) : fieldPath path ≠ [] :=
  Text.split_ne_nil '.' path

/-- Looking a path up among fields is looking it up in the object that has
them. -/
theorem Fields.field?_eq (fields : Fields) (path : String) :
    fields.field? path = (Value.object fields).field? path := by
  cases hPath : fieldPath path with
  | nil => exact absurd hPath (fieldPath_ne_nil path)
  | cons name rest => simp [Fields.field?, Value.field?, Value.follow, hPath]

end DocQuery
