import DocQuery.Settings.Override
import DocQuery.Toml.Read
/-!
Settings from a TOML document with the sections `output`, `logging` and `limits`. What is missing
keeps its default and what is unknown is passed over, but a setting of the wrong kind spoils the
whole document.
-/
namespace DocQuery

open Toml

/-- The settings of a section by their names. A section is a table; it may also
be an array of the settings in their order, and a moment in time counts as a
section without any. -/
def sectionEntries (names : List String) : Node → Option Entries
  | .table _ entries => some entries
  | .array items => some (names.zip items)
  | .tables rows => some (names.zip (rows.map (.table .header)))
  | .moment => some []
  | .string _ => none
  | .integer _ => none
  | .float => none
  | .bool _ => none

def isEmptyNode : Node → Bool
  | .table _ entries => entries.isEmpty
  | .array items => items.isEmpty
  | _ => false

/-- The format that a value names, alone or as the one key of a table with
nothing below it. -/
def formatOfNode? : Node → Option Format
  | .string word => Format.ofWord? word
  | .table _ [(word, node)] => if isEmptyNode node then Format.ofWord? word else none
  | _ => none

def textOfNode? : Node → Option String
  | .string text => some text
  | _ => none

def countOfNode? : Node → Option Nat
  | .integer (.ofNat n) => some n
  | _ => none

/-- A setting of a section, its default if it is missing, or none if it is of
the wrong kind. -/
def setting (read : Node → Option α) (name : String) (default : α) (entries : Entries) : Option α :=
  match entries.lookup name with
  | none => some default
  | some node => read node

namespace Settings

def ofEntries? (root : Entries) : Option Settings := do
  let output ← setting (sectionEntries ["format", "directory"]) "output" [] root
  let logging ← setting (sectionEntries ["level"]) "logging" [] root
  let limits ← setting (sectionEntries ["max_documents"]) "limits" [] root
  let standard : Settings := {}
  return {
    format := ← setting formatOfNode? "format" standard.format output
    directory := ← setting textOfNode? "directory" standard.directory output
    level := ← setting textOfNode? "level" standard.level logging
    maximum := ← setting countOfNode? "max_documents" standard.maximum limits }

def ofText? (text : String) : Option Settings :=
  (Entries.ofText? text).bind ofEntries?

end Settings

end DocQuery
