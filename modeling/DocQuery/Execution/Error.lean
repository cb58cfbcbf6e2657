import DocQuery.Grammar.Error
import DocQuery.Output.Destination
import DocQuery.Selection.Plan
import DocQuery.Store.Basic
/-!
Everything for which running a statement can fail, by the part that it comes from.
-/
namespace DocQuery

/-- Why a statement could not be run. -/
inductive QueryError where
  | malformed (error : SyntaxError)
  | unplannable (error : PlanError)
  | store (error : StoreError)
  | output (error : SinkError)
  | tooMany (fetched maximum : Nat)

def QueryError.message : QueryError → String
  | .malformed error => "Syntax error: " ++ error.message
  | .unplannable error => "Plan error: " ++ error.message
  | .store error => "Store error: " ++ error.message
  | .output error => "Output error: " ++ error.message
  | .tooMany fetched maximum =>
      "Document limit exceeded: fetched " ++ Nat.repr fetched ++ ", maximum is " ++
        Nat.repr maximum

end DocQuery
