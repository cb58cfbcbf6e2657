import DocQuery.Query.Basic
import DocQuery.Store.Document
import DocQuery.Value.Json
import DocQuery.Value.Order
/-!
What becomes of the selected documents: they are sorted, reduced to the fields asked for, grouped
by the values of one field, and counted or freed of repetitions. Buckets of a group stand in the
order of their first records, and records without the field share the bucket of the null value.
-/
namespace DocQuery

/-- The order of two documents by one key; a missing field counts as null. -/
def OrderKey.compare (key : OrderKey) (a b : Document) : Ordering :=
  let field (document : Document) : Value := (document.fields.field? key.property).getD .null
  key.direction.apply ((field a).order (field b))

/-- The order of two documents by a list of keys: the first that tells them
apart decides. -/
def compareByKeys (keys : List OrderKey) (a b : Document) : Ordering :=
  match keys with
  | [] => .eq
  | key :: rest => (key.compare a b).then (compareByKeys rest a b)

/-- The documents in the order of the keys. Those that the keys do not tell
apart keep their order. -/
def sortDocuments (keys : List OrderKey) (documents : List Document) : List Document :=
  documents.mergeSort fun a b => (compareByKeys keys a b).isLE

/-- The record that a document becomes: all its fields and its path, or the
properties asked for under the names they were asked for, null where they are
missing. -/
def Projection.record (projection : Projection) (document : Document) : Value :=
  match projection with
  | .all => document.toValue
  | .only properties =>
      .object (Fields.ofList (properties.map fun property =>
        (property, (document.toValue.field? property).getD .null)))

/-- The value by which a document is grouped. A null counts as none. -/
def groupKey (property : String) (document : Document) : Option Value :=
  match document.toValue.field? property with
  | some .null => none
  | found => found

/-- Records of documents that have equal values in the field they are grouped
by. -/
structure Bucket where
  key : Option Value
  rows : List Value

/-- Whether two group values belong into one bucket. -/
def sameKey : Option Value → Option Value → Bool
  | some a, some b => a.equal b
  | none, none => true
  | _, _ => false

/-- Adds a record to the first bucket of its key, or to a new last one. -/
def addToBuckets (key : Option Value) (row : Value) : List Bucket → List Bucket
  | [] => [⟨key, [row]⟩]
  | bucket :: rest =>
      if sameKey bucket.key key then { bucket with rows := bucket.rows ++ [row] } :: rest
      else bucket :: addToBuckets key row rest

/-- The buckets of records, each given with its key. -/
def bucketsOf (entries : List (Option Value × Value)) : List Bucket :=
  entries.foldl (fun buckets entry => addToBuckets entry.1 entry.2 buckets) []

/-- The plain label of a bucket: a text as it is, any other value as JSON. -/
def Bucket.plainLabel (bucket : Bucket) : String :=
  match bucket.key with
  | some (.string text) => text
  | some other => other.compact
  | none => "null"

/-- The label of a bucket. A text whose plain label another bucket has too is
written as JSON. -/
def Bucket.label (plainLabels : List String) (bucket : Bucket) : String :=
  match bucket.key with
  | some (.string text) =>
      if 1 < plainLabels.count text then (Value.string text).compact else text
  | _ => bucket.plainLabel

/-- The records under the labels of their buckets. -/
def groupRecords (property : String) (documents : List Document) (rows : List Value) :
    List (String × List Value) :=
  let buckets := bucketsOf ((documents.map (groupKey property)).zip rows)
  let plainLabels := buckets.map Bucket.plainLabel
  buckets.map fun bucket => (bucket.label plainLabels, bucket.rows)

/-- The values that come after the ones already seen and equal none of them or
of each other. -/
def unseen (seen : List Value) : List Value → List Value
  | [] => []
  | value :: rest =>
      if seen.any fun earlier => earlier.equal value then unseen seen rest
      else value :: unseen (seen ++ [value]) rest

/-- The values without those that equal an earlier one. -/
def distinctValues (values : List Value) : List Value :=
  unseen [] values

inductive ResultSet where
  | records (rows : List Value)
  | grouped (buckets : List (String × List Value))
  | count (n : Nat)

namespace ResultSet

def countRecord (n : Nat) : Value :=
  .object [("count", .number (.integer n))]

def toValue : ResultSet → Value
  | .records rows => .array rows
  | .grouped buckets =>
      .object (Fields.ofList (buckets.map fun bucket => (bucket.1, .array bucket.2)))
  | .count n => countRecord n

/-- The records of the result in one list, bucket after bucket. -/
def rows : ResultSet → List Value
  | .records all => all
  | .grouped buckets => buckets.flatMap Prod.snd
  | .count n => [countRecord n]

/-- What an aggregate makes of a result. A grouped result is counted by buckets
and freed of repetitions within each. -/
def aggregated (aggregate : Aggregate) (result : ResultSet) : ResultSet :=
  match aggregate, result with
  | .count, .records all => .count all.length
  | .count, .grouped buckets => .count buckets.length
  | .count, .count n => .count n
  | .distinct, .records all => .records (distinctValues all)
  | .distinct, .grouped buckets =>
      .grouped (buckets.map fun bucket => (bucket.1, distinctValues bucket.2))
  | .distinct, .count n => .count n

end ResultSet

def arrange (projection : Projection) (group : Option String) (aggregate : Option Aggregate)
    (documents : List Document) : ResultSet :=
  let rows := documents.map projection.record
  let result := match group with
    | some property => ResultSet.grouped (groupRecords property documents rows)
    | none => ResultSet.records rows
  match aggregate with
  | some aggregate => result.aggregated aggregate
  | none => result

end DocQuery
