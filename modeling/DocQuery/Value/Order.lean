import DocQuery.Value.Basic
/-!
Equality and order of values. Equality is numerical between numbers, also inside arrays; inside an
object it tells a whole number from a double, and the order of the fields does not matter. The
order ranks values by type, then numbers by size, texts by code points and arrays item by item;
objects are ranked by their number of fields alone.
-/
namespace DocQuery.Value

mutual

/-- Equality of structure: numbers of one kind, and objects with the same fields
in any order. -/
def same : Value → Value → Bool
  | .null, .null => true
  | .bool a, .bool b => a == b
  | .number a, .number b => a.same b
  | .string a, .string b => a == b
  | .array xs, .array ys => sameItems xs ys
  | .object xs, .object ys => xs.length == ys.length && sameFields xs ys
  | _, _ => false

def sameItems : List Value → List Value → Bool
  | [], [] => true
  | x :: xs, y :: ys => x.same y && sameItems xs ys
  | _, _ => false

/-- Whether each of the fields is also there on the right, with the same
value. -/
def sameFields : List (String × Value) → Fields → Bool
  | [], _ => true
  | (key, x) :: xs, ys =>
      (match ys.get? key with
        | some y => x.same y
        | none => false) && sameFields xs ys

end

mutual

/-- Equality of values in queries. -/
def equal : Value → Value → Bool
  | .null, .null => true
  | .bool a, .bool b => a == b
  | .number a, .number b => a.equal b
  | .string a, .string b => a == b
  | .array xs, .array ys => equalItems xs ys
  | .object xs, .object ys => (Value.object xs).same (.object ys)
  | _, _ => false

def equalItems : List Value → List Value → Bool
  | [], [] => true
  | x :: xs, y :: ys => x.equal y && equalItems xs ys
  | _, _ => false

end

def isIn (items : List Value) (value : Value) : Bool :=
  items.any fun item => item.equal value

/-- The rank of a value's type. -/
def rank : Value → Nat
  | .null => 0
  | .bool _ => 1
  | .number _ => 2
  | .string _ => 3
  | .array _ => 4
  | .object _ => 5

mutual

def order : Value → Value → Ordering
  | .bool a, .bool b => compare a.toNat b.toNat
  | .number a, .number b => a.order b
  | .string a, .string b => compare a b
  | .array xs, .array ys => orderItems xs ys
  | .object xs, .object ys => compare xs.length ys.length
  | a, b => compare a.rank b.rank

/-- The first difference decides; else the shorter list comes first. -/
def orderItems : List Value → List Value → Ordering
  | [], [] => .eq
  | [], _ :: _ => .lt
  | _ :: _, [] => .gt
  | x :: xs, y :: ys => (x.order y).then (orderItems xs ys)

end

/-- The order that range operators use: only between two numbers, two texts or
two booleans. -/
def orderInType? : Value → Value → Option Ordering
  | .bool a, .bool b => some (order (.bool a) (.bool b))
  | .number a, .number b => some (order (.number a) (.number b))
  | .string a, .string b => some (order (.string a) (.string b))
  | _, _ => none

end DocQuery.Value
