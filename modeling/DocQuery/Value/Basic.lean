import DocQuery.Number.Double
/-!
The values that documents hold. Numbers keep whether they are whole numbers or doubles, and an
object is the list of its fields in the order in which their names first appeared. In an object
that was read or built here no name appears twice; `Value.KeysDistinct` says so at every depth.
-/
namespace DocQuery

/-- A number of a document: a whole number, or a double with a fraction or an
exponent. -/
inductive Number where
  | integer (n : Int)
  | real (x : Double)
  deriving DecidableEq, Repr

namespace Number

/-- The double that stands for a number in every comparison. -/
def toDouble : Number → Double
  | .integer n => Double.ofInt n
  | .real x => x

def equal (a b : Number) : Bool :=
  a.toDouble.equal b.toDouble

def order (a b : Number) : Ordering :=
  a.toDouble.order b.toDouble

/-- Equality that tells a whole number from a double. -/
def same : Number → Number → Bool
  | .integer a, .integer b => a == b
  | .real a, .real b => a.equal b
  | _, _ => false

end Number

inductive Value where
  | null
  | bool (b : Bool)
  | number (n : Number)
  | string (s : String)
  | array (items : List Value)
  | object (fields : List (String × Value))
  deriving Repr, Inhabited

/-- The fields of an object or of a document, in order. -/
abbrev Fields := List (String × Value)

namespace Fields

def keys (fields : Fields) : List String :=
  fields.map Prod.fst

def get? (fields : Fields) (key : String) : Option Value :=
  fields.lookup key

/-- Gives a field a value. A field that is there keeps its place, a new one
comes last. -/
def set (key : String) (value : Value) : Fields → Fields
  | [] => [(key, value)]
  | (k, v) :: rest => if k = key then (k, value) :: rest else (k, v) :: set key value rest

/-- The fields named one after the other, where a repeated name overwrites in
place. -/
def ofList (entries : List (String × Value)) : Fields :=
  entries.foldl (fun fields entry => set entry.1 entry.2 fields) []

@[simp] theorem get?_nil (key : String) : get? [] key = none := rfl

theorem get?_cons (k : String) (v : Value) (rest : Fields) (key : String) :
    get? ((k, v) :: rest) key = if key = k then some v else get? rest key := by
  by_cases hKey : key = k
  · simp [get?, hKey]
  · simp [get?, List.lookup_cons, beq_eq_false_iff_ne.mpr hKey, hKey]

theorem get?_set_self (key : String) (value : Value) (fields : Fields) :
    get? (set key value fields) key = some value := by
  induction fields with
  | nil => simp [set, get?_cons]
  | cons entry rest ih =>
      obtain ⟨k, v⟩ := entry
      by_cases hKey : k = key
      · simp [set, hKey, get?_cons]
      · simp [set, hKey, get?_cons, ih, Ne.symm hKey]

/-- Naming a field leaves the others as they were. -/
theorem get?_set_of_ne {key other : String} (h : other ≠ key) (value : Value)
    (fields : Fields) : get? (set key value fields) other = get? fields other := by
  induction fields with
  | nil => simp [set, get?_cons, h]
  | cons entry rest ih =>
      obtain ⟨k, v⟩ := entry
      by_cases hKey : k = key
      · subst hKey
        simp [set, get?_cons, h]
      · simp [set, hKey, get?_cons, ih]

/-- A name that is there keeps its place, and a new one comes last. -/
theorem keys_set (key : String) (value : Value) (fields : Fields) :
    keys (set key value fields) =
      if key ∈ keys fields then keys fields else keys fields ++ [key] := by
  induction fields with
  | nil => simp [set, keys]
  | cons entry rest ih =>
      obtain ⟨k, v⟩ := entry
      by_cases hKey : k = key
      · simp [set, hKey, keys]
      · simp only [keys] at ih
        by_cases hThere : key ∈ rest.map Prod.fst
        · simp [set, hKey, keys, ih, hThere]
        · simp [set, hKey, keys, ih, hThere, Ne.symm hKey]

end Fields

namespace Value

mutual

/-- No object inside a value names a field twice. -/
def KeysDistinct : Value → Prop
  | .null => True
  | .bool _ => True
  | .number _ => True
  | .string _ => True
  | .array items => ItemsDistinct items
  | .object fields => (Fields.keys fields).Nodup ∧ FieldsDistinct fields

def ItemsDistinct : List Value → Prop
  | [] => True
  | item :: rest => item.KeysDistinct ∧ ItemsDistinct rest

def FieldsDistinct : List (String × Value) → Prop
  | [] => True
  | (_, value) :: rest => value.KeysDistinct ∧ FieldsDistinct rest

end

def items? : Value → Option (List Value)
  | .array items => some items
  | _ => none

def text? : Value → Option String
  | .string s => some s
  | _ => none

def fields? : Value → Option Fields
  | .object fields => some fields
  | _ => none

end Value

end DocQuery
