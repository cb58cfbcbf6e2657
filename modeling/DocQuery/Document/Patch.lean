import DocQuery.Document.Field
import DocQuery.Document.Merge
import DocQuery.Query.Basic
/-!
The patch that setters describe. Of two setters for the same property the later one counts, at the
place of the earlier one. Then the dotted properties are expanded and merged one after the other.
-/
namespace DocQuery

/-- The setters as flat fields. -/
def setFields (setters : List Setter) : Fields :=
  Fields.ofList (setters.map fun setter => (setter.property, setter.value.toValue))

/-- The fields with every key expanded as a dotted path and merged in order. -/
def Fields.unflatten (flat : Fields) : Fields :=
  flat.foldl (fun fields entry => fields.merge (Fields.expand entry.1 entry.2)) []

/-- The patch that setters describe. -/
def patchOf (setters : List Setter) : Fields :=
  (setFields setters).unflatten

end DocQuery
