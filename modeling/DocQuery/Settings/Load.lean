import DocQuery.Settings.Document
import DocQuery.Settings.Environment
/-!
Loading settings: from a document if there is one, overridden by variables. The variables of a file
are added to those that are set already, which keep their values.
-/
namespace DocQuery

inductive LoadError where
  | environment
  | document
  | override (error : OverrideError)
  deriving DecidableEq, Repr

namespace Settings

/-- The settings of a document, or the defaults without one. -/
def ofDocument (document : Option String) : Option Settings :=
  match document with
  | none => some {}
  | some text => ofText? text

/-- Loads the settings of a document and the variables of a file, both of which
may be missing. -/
def load (document assignments : Option String) (environment : Environment) :
    Except LoadError Settings :=
  let complete := match assignments with
    | none => some environment
    | some text => environment.addFile text
  match complete with
  | none => .error .environment
  | some environment =>
      match ofDocument document with
      | none => .error .document
      | some settings =>
          match settings.override environment.get? with
          | (settings, none) => .ok settings
          | (_, some error) => .error (.override error)

end Settings

end DocQuery
