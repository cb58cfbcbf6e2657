import DocQuery.Selection.Plan
/-!
Clauses evaluated on fetched documents. A clause looks its property up among the flattened fields
of a document, so a property that holds a non-empty object is not found. Of `array_contains_any`
every wanted item has to be there, and `not_in` holds against anything that is no array.
-/
namespace DocQuery

namespace Clause

/-- Checks that the pattern of a `like` is a text that is short enough. -/
def check (clause : Clause) : Except PlanError Unit :=
  match clause.operator, clause.value with
  | .like, .string pattern =>
      if Pattern.fits pattern then .ok ()
      else .error (.invalidPattern clause.property .tooLong)
  | .like, other => .error (.invalidPattern clause.property (.notText other))
  | _, _ => .ok ()

/-- Whether the value of the property satisfies a clause. -/
def accepts (clause : Clause) (actual : Value) : Bool :=
  let expected := clause.value.toValue
  let ordering := actual.orderInType? expected
  match clause.operator with
  | .equal => actual.equal expected
  | .notEqual => !actual.equal expected
  | .greaterThan => ordering == some .gt
  | .greaterThanOrEqual => ordering == some .gt || ordering == some .eq
  | .lessThan => ordering == some .lt
  | .lessThanOrEqual => ordering == some .lt || ordering == some .eq
  | .isIn =>
      match expected.items? with
      | some options => Value.isIn options actual
      | none => false
  | .notIn =>
      match expected.items? with
      | some options => !Value.isIn options actual
      | none => true
  | .arrayContains =>
      match actual.items? with
      | some items => Value.isIn items expected
      | none => false
  | .arrayContainsAny =>
      match actual.items?, expected.items? with
      | some items, some wanted => wanted.all (Value.isIn items)
      | _, _ => false
  | .like =>
      match actual.text?, clause.value with
      | some text, .string pattern => Pattern.accepts pattern text
      | _, _ => false

/-- Whether flattened fields satisfy a clause. Without the property they never
do. -/
def holds (clause : Clause) (flat : Fields) : Bool :=
  match flat.get? clause.property with
  | some actual => clause.accepts actual
  | none => false

end Clause

/-- Checks the patterns of clauses, the first one at fault first. -/
def checkClauses (clauses : List Clause) : Except PlanError Unit :=
  clauses.forM Clause.check

/-- The documents whose flattened fields satisfy every clause. -/
def filterDocuments (clauses : List Clause) (documents : List Document) : List Document :=
  documents.filter fun document =>
    let flat := document.fields.flatten
    clauses.all fun clause => clause.holds flat

end DocQuery
