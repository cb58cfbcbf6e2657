import DocQuery.Execution.Basic
/-!
Settings: the format of results, the folder for output files, the level of detail of the log and
the most documents a selection may fetch.
-/
namespace DocQuery

structure Settings where
  format : Format := .json
  directory : String := "."
  level : String := "info"
  maximum : Nat := standardMaximum
  deriving DecidableEq, Repr

/-- The filter of the log for a level. A level with an equals sign or a comma is
a filter already. -/
def logFilter (level : String) : String :=
  let level := Text.trim level
  if level.toList.any fun c => c == '=' || c == ',' then level
  else "fikl=" ++ level ++ ",fikl_core=" ++ level

namespace Settings

def engine (settings : Settings) : Engine where
  maximum := settings.maximum
  format := settings.format

/-- The devices of a session under the settings, before anything is written. -/
def devices (settings : Settings) (home : Option String) (clipboard : Bool) : Devices where
  base := settings.directory
  home := home
  clipboard := if clipboard then some ⟨none⟩ else none
  tree := .ofFolders (settings.directory :: home.toList)

end Settings

end DocQuery
