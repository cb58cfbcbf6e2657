import DocQuery.Value.Basic
/-!
Merging one set of fields into another: objects of the same name are merged field by field, any
other value replaces what was there.
-/
namespace DocQuery

namespace Fields

mutual

/-- What a field holds after a value was merged into it. -/
def mergeValue (old : Option Value) : Value → Value
  | .object patch =>
      match old with
      | some (.object fields) => .object (mergeFields fields patch)
      | _ => .object patch
  | .null => .null
  | .bool b => .bool b
  | .number n => .number n
  | .string s => .string s
  | .array items => .array items

/-- The fields after those of a patch were merged into them in order. -/
def mergeFields (fields : Fields) : List (String × Value) → Fields
  | [] => fields
  | (key, value) :: rest =>
      mergeFields (fields.set key (mergeValue (fields.get? key) value)) rest

end

def merge (fields patch : Fields) : Fields :=
  mergeFields fields patch

@[simp] theorem merge_nil (fields : Fields) : fields.merge [] = fields := by
  simp [merge, mergeFields]

/-- A patch is merged in field by field, from the first to the last. -/
theorem merge_cons (fields : Fields) (key : String) (value : Value) (rest : Fields) :
    fields.merge ((key, value) :: rest) =
      (fields.set key (mergeValue (fields.get? key) value)).merge rest := by
  simp [merge, mergeFields]

end Fields

end DocQuery
