import DocQuery.Document.Field
/-!
Documents as the store gives them: the fields of a document and the path it is stored at.
-/
namespace DocQuery

structure Document where
  path : String
  fields : Fields
  deriving Repr

/-- The name under which a document's path appears among its fields. -/
def Document.pathKey : String :=
  "_path"

/-- The fields of a document together with its path, as one value. -/
def Document.toValue (document : Document) : Value :=
  .object (document.fields.set pathKey (.string document.path))

end DocQuery
