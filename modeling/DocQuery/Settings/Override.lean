import DocQuery.Settings.Basic
import DocQuery.Text.Case
/-!
Settings overridden by variables. The variables are looked at in a fixed order, blank ones count as
missing, and what was overridden before a faulty one stays so.
-/
namespace DocQuery

inductive CountFault where
  | invalidDigit
  | tooLarge
  deriving DecidableEq, Repr

def CountFault.message : CountFault → String
  | .invalidDigit => "invalid digit found in string"
  | .tooLarge => "number too large to fit in target type"

/-- A variable that cannot be used. -/
inductive OverrideError where
  | format (given : String)
  | maximum (given : String) (fault : CountFault)
  deriving DecidableEq, Repr

namespace Variable

def format : String :=
  "FIKL_FORMAT"

def directory : String :=
  "FIKL_OUTPUT_DIR"

def level : String :=
  "FIKL_LOG"

def maximum : String :=
  "FIKL_MAX_DOCUMENTS"

end Variable

def OverrideError.message : OverrideError → String
  | .format given => Variable.format ++ " must be 'json' or 'csv', got '" ++ given ++ "'"
  | .maximum given fault =>
      Variable.maximum ++ " must be a number, got '" ++ given ++ "': " ++ fault.message

def Format.ofWord? (word : String) : Option Format :=
  if word = "json" then some .json else if word = "csv" then some .csv else none

/-- Reads the digits of a count that stays below `2 ^ 64`, from the first fault
on none. -/
def countOfDigits (count : Nat) : List Char → Except CountFault Nat
  | [] => .ok count
  | c :: rest =>
      if !c.isDigit then .error .invalidDigit
      else
        let count := count * 10 + (c.toNat - '0'.toNat)
        if 2 ^ 64 ≤ count then .error .tooLarge else countOfDigits count rest

/-- Reads a count, which may have a plus in front of its digits. -/
def countOfText (text : String) : Except CountFault Nat :=
  match text.toList with
  | '+' :: c :: rest => countOfDigits 0 (c :: rest)
  | digits => countOfDigits 0 digits

namespace Settings

def overrideFormat (settings : Settings) (given : String) : Except OverrideError Settings :=
  let word := Text.lowerAscii (Text.trim given)
  match Format.ofWord? word with
  | some format => .ok { settings with format }
  | none => .error (.format word)

def overrideMaximum (settings : Settings) (given : String) : Except OverrideError Settings :=
  match countOfText (Text.trim given) with
  | .ok maximum => .ok { settings with maximum }
  | .error fault => .error (.maximum given fault)

/-- Overrides the settings by the variables that are not blank. If one of
them is faulty the settings come back as they are by then, together with the
error. -/
def override (lookup : String → Option String) (settings : Settings) :
    Settings × Option OverrideError :=
  let given (name : String) := (lookup name).filter fun value => !Text.isBlankText value
  let formatted := match given Variable.format with
    | some value => settings.overrideFormat value
    | none => .ok settings
  match formatted with
  | .error error => (settings, some error)
  | .ok settings =>
      let settings := { settings with
        directory := (given Variable.directory).getD settings.directory
        level := (given Variable.level).getD settings.level }
      match given Variable.maximum with
      | none => (settings, none)
      | some value =>
          match settings.overrideMaximum value with
          | .ok settings => (settings, none)
          | .error error => (settings, some error)

end Settings

end DocQuery
