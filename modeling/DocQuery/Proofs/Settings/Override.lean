import DocQuery.Settings.Override
import Mathlib.Algebra.Group.Nat.Defs

/-! Settings overridden by variables. A variable that is set and not blank
decides its setting, and all others leave it as it was. The first faulty
variable ends it, and what those before it said stays. -/
namespace DocQuery

section Counts

/-- Further digits never make a number smaller. -/
theorem le_ofDigitChars (digits : List Char) (count : Nat) :
    count ≤ Nat.ofDigitChars 10 digits count := by
  induction digits generalizing count with
  | nil => exact Nat.le_refl count
  | cons c digits ih =>
      rw [Nat.ofDigitChars_cons]
      have hNext := ih (10 * count + (c.toNat - '0'.toNat))
      omega

theorem countOfDigits_nil (count : Nat) : countOfDigits count [] = .ok count :=
  rfl

theorem countOfDigits_cons (count : Nat) (c : Char) (digits : List Char) :
    countOfDigits count (c :: digits) =
      if !c.isDigit then .error .invalidDigit
      else if 2 ^ 64 ≤ count * 10 + (c.toNat - '0'.toNat) then .error .tooLarge
      else countOfDigits (count * 10 + (c.toNat - '0'.toNat)) digits :=
  rfl

/-- A count is read from digits alone, exactly, and only if it fits into
sixty-four bits. -/
theorem countOfDigits_eq_ok_iff {count n : Nat} {digits : List Char} (hCount : count < 2 ^ 64) :
    countOfDigits count digits = .ok n ↔
      digits.all Char.isDigit = true ∧ n = Nat.ofDigitChars 10 digits count ∧ n < 2 ^ 64 := by
  induction digits generalizing count with
  | nil =>
      rw [countOfDigits_nil, Nat.ofDigitChars_nil, Except.ok.injEq]
      constructor
      · rintro rfl
        exact ⟨rfl, rfl, hCount⟩
      · rintro ⟨-, rfl, -⟩
        rfl
  | cons c digits ih =>
      rw [countOfDigits_cons, Nat.ofDigitChars_cons, List.all_cons, Nat.mul_comm 10 count]
      cases hDigit : c.isDigit with
      | false => simp
      | true =>
          by_cases hLarge : 2 ^ 64 ≤ count * 10 + (c.toNat - '0'.toNat)
          · have hGrows := le_ofDigitChars digits (count * 10 + (c.toNat - '0'.toNat))
            simp only [Bool.not_true, Bool.false_eq_true, if_false, if_pos hLarge, reduceCtorEq,
              Bool.true_and, false_iff, not_and]
            intro _ hValue
            omega
          · simp only [Bool.not_true, Bool.false_eq_true, if_false, if_neg hLarge, Bool.true_and]
            exact ih (Nat.lt_of_not_le hLarge)

/-- A plus may stand in front of the digits of a count. -/
theorem countOfText_eq_ok_iff {text : String} {n : Nat} :
    countOfText text = .ok n ↔ ∃ digits : List Char, digits.all Char.isDigit = true ∧
      (text.toList = digits ∨ text.toList = '+' :: digits ∧ digits ≠ []) ∧
      n = Decimal.value digits ∧ n < 2 ^ 64 := by
  unfold countOfText
  split
  · rename_i c rest hText
    rw [countOfDigits_eq_ok_iff (by decide), hText]
    constructor
    · rintro ⟨hDigits, hValue⟩
      exact ⟨c :: rest, hDigits, .inr ⟨rfl, List.cons_ne_nil _ _⟩, hValue⟩
    · rintro ⟨digits, hDigits, rfl | ⟨hPlus, -⟩, hValue⟩
      · cases hDigits
      · cases hPlus
        exact ⟨hDigits, hValue⟩
  · rename_i hPlus
    rw [countOfDigits_eq_ok_iff (by decide)]
    constructor
    · rintro ⟨hDigits, hValue⟩
      exact ⟨_, hDigits, .inl rfl, hValue⟩
    · rintro ⟨digits, hDigits, rfl | ⟨hText, hNe⟩, hValue⟩
      · exact ⟨hDigits, hValue⟩
      · obtain ⟨c, rest, rfl⟩ := List.exists_cons_of_ne_nil hNe
        exact absurd hText (hPlus c rest)

end Counts

namespace Settings

variable {lookup : String → Option String} {settings before after : Settings} {α : Type}

/-- The text of a variable that is set and not blank. -/
def given (lookup : String → Option String) (name : String) : Option String :=
  (lookup name).filter fun value => !Text.isBlankText value

/-- A setting is what the text of its variable stands for. Without one it stays
as it was. -/
def Chosen (reads : String → α → Prop) (text : Option String) (before after : α) : Prop :=
  match text with
  | none => after = before
  | some text => reads text after

/-- The text of a variable is the name of a format, in any case and with white
space around it. -/
def NamesFormat (text : String) (format : Format) : Prop :=
  Format.ofWord? (Text.lowerAscii (Text.trim text)) = some format

def NamesCount (text : String) (n : Nat) : Prop :=
  countOfText (Text.trim text) = .ok n

/-- The settings after all variables were looked at. -/
structure OverriddenBy (lookup : String → Option String) (before after : Settings) : Prop where
  format : Chosen NamesFormat (given lookup Variable.format) before.format after.format
  directory : Chosen Eq (given lookup Variable.directory) before.directory after.directory
  level : Chosen Eq (given lookup Variable.level) before.level after.level
  maximum : Chosen NamesCount (given lookup Variable.maximum) before.maximum after.maximum

/-- Variables as they are, but for one that counts as missing. -/
def without (missing : String) (lookup : String → Option String) (name : String) : Option String :=
  if name = missing then none else lookup name

/-- How overriding ends: with every variable looked at, or with the first one
that is faulty. What the variables before that one say counts all the same. -/
inductive Ends (lookup : String → Option String) (before : Settings) :
    Settings → Option OverrideError → Prop
  | done {after : Settings} (h : OverriddenBy lookup before after) : Ends lookup before after none
  | format {text : String} (hText : given lookup Variable.format = some text)
      (hFormat : ∀ format, ¬ NamesFormat text format) :
      Ends lookup before before (some (.format (Text.lowerAscii (Text.trim text))))
  | maximum {after : Settings} {text : String} {fault : CountFault}
      (hText : given lookup Variable.maximum = some text)
      (hCount : countOfText (Text.trim text) = .error fault)
      (h : OverriddenBy (without Variable.maximum lookup) before after) :
      Ends lookup before after (some (.maximum text fault))

/-- The settings after the variable of the format was looked at. -/
def overrideFirst (lookup : String → Option String) (settings : Settings) :
    Except OverrideError Settings :=
  match given lookup Variable.format with
  | some value => settings.overrideFormat value
  | none => .ok settings

def overrideRest (lookup : String → Option String) (settings : Settings) :
    Settings × Option OverrideError :=
  let settings := { settings with
    directory := (given lookup Variable.directory).getD settings.directory
    level := (given lookup Variable.level).getD settings.level }
  match given lookup Variable.maximum with
  | none => (settings, none)
  | some value =>
      match settings.overrideMaximum value with
      | .ok settings => (settings, none)
      | .error error => (settings, some error)

section Override

/-- A text setting is its variable, or what it was before. -/
theorem chosen_getD (text : Option String) (before : String) :
    Chosen Eq text before (text.getD before) := by
  cases text <;> rfl

/-- A variable leaves no choice if its text can be read in one way only. -/
theorem Chosen.unique {reads : String → α → Prop} {text : Option String} {before first second : α}
    (hReads : ∀ text first second, reads text first → reads text second → first = second)
    (h : Chosen reads text before first) (hSecond : Chosen reads text before second) :
    first = second := by
  cases text with
  | none => exact Eq.trans h (Eq.symm hSecond)
  | some text => exact hReads text first second h hSecond

/-- A text names at most one format. -/
theorem NamesFormat.unique (text : String) (first second : Format) (h : NamesFormat text first)
    (hSecond : NamesFormat text second) : first = second :=
  Option.some.inj (h.symm.trans hSecond)

/-- A text names at most one number. -/
theorem NamesCount.unique (text : String) (first second : Nat) (h : NamesCount text first)
    (hSecond : NamesCount text second) : first = second :=
  Except.ok.inj (h.symm.trans hSecond)

/-- The variables leave no choice. -/
theorem OverriddenBy.unique {other : Settings} (h : OverriddenBy lookup before after)
    (hOther : OverriddenBy lookup before other) : after = other := by
  have hFormat := h.format.unique NamesFormat.unique hOther.format
  have hDirectory : after.directory = other.directory :=
    h.directory.unique (fun _ _ _ hFirst hSecond => hFirst.symm.trans hSecond) hOther.directory
  have hLevel : after.level = other.level :=
    h.level.unique (fun _ _ _ hFirst hSecond => hFirst.symm.trans hSecond) hOther.level
  have hMaximum := h.maximum.unique NamesCount.unique hOther.maximum
  cases after
  cases other
  exact Settings.mk.injEq .. ▸ ⟨hFormat, hDirectory, hLevel, hMaximum⟩

/-- A variable that counts as missing is not given. -/
theorem given_without_self (name : String) (lookup : String → Option String) :
    given (without name lookup) name = none := by
  rw [given, without, if_pos rfl, Option.filter_none]

/-- All other variables are given as before. -/
theorem given_without_of_ne {name missing : String} (h : name ≠ missing)
    (lookup : String → Option String) :
    given (without missing lookup) name = given lookup name := by
  rw [given, without, if_neg h, given]

theorem override_eq (lookup : String → Option String) (settings : Settings) :
    settings.override lookup =
      match overrideFirst lookup settings with
      | .error error => (settings, some error)
      | .ok settings => overrideRest lookup settings :=
  rfl

/-- All that the variable of the format does. -/
theorem overrideFirst_cases (lookup : String → Option String) (settings : Settings) :
    (∃ text, given lookup Variable.format = some text ∧ (∀ format, ¬ NamesFormat text format) ∧
      overrideFirst lookup settings = .error (.format (Text.lowerAscii (Text.trim text)))) ∨
    ∃ format, Chosen NamesFormat (given lookup Variable.format) settings.format format ∧
      overrideFirst lookup settings = .ok { settings with format } := by
  rw [overrideFirst]
  cases given lookup Variable.format with
  | none => exact .inr ⟨settings.format, rfl, rfl⟩
  | some text =>
      dsimp only
      rw [overrideFormat]
      cases hWord : Format.ofWord? (Text.lowerAscii (Text.trim text)) with
      | none =>
          refine .inl ⟨text, rfl, fun format hFormat => ?_, rfl⟩
          cases hWord.symm.trans hFormat
      | some format => exact .inr ⟨format, hWord, rfl⟩

/-- All that the other variables do. -/
theorem overrideRest_cases (lookup : String → Option String) (settings : Settings) :
    ∃ maximum error, overrideRest lookup settings = ({ settings with
        directory := (given lookup Variable.directory).getD settings.directory
        level := (given lookup Variable.level).getD settings.level
        maximum }, error) ∧
      (error = none ∧ Chosen NamesCount (given lookup Variable.maximum) settings.maximum maximum ∨
      maximum = settings.maximum ∧ ∃ text fault, given lookup Variable.maximum = some text ∧
        countOfText (Text.trim text) = .error fault ∧ error = some (.maximum text fault)) := by
  rw [overrideRest]
  cases given lookup Variable.maximum with
  | none => exact ⟨settings.maximum, none, rfl, .inl ⟨rfl, rfl⟩⟩
  | some text =>
      dsimp only
      rw [overrideMaximum]
      cases hCount : countOfText (Text.trim text) with
      | ok maximum => exact ⟨maximum, none, rfl, .inl ⟨rfl, hCount⟩⟩
      | error fault => exact ⟨settings.maximum, _, rfl, .inr ⟨rfl, text, fault, rfl, hCount, rfl⟩⟩

/-- Overriding always ends in one of the three ways. -/
theorem override_ends (lookup : String → Option String) (settings : Settings) :
    Ends lookup settings (settings.override lookup).1 (settings.override lookup).2 := by
  rw [override_eq]
  obtain ⟨text, hText, hFormat, hFirst⟩ | ⟨format, hFormat, hFirst⟩ :=
    overrideFirst_cases lookup settings
  · rw [hFirst]
    exact .format hText hFormat
  · rw [hFirst]
    obtain ⟨maximum, error, hRest, ⟨rfl, hMaximum⟩ | ⟨rfl, text, fault, hText, hCount, rfl⟩⟩ :=
      overrideRest_cases lookup { settings with format }
    · dsimp only
      rw [hRest]
      exact .done ⟨hFormat, chosen_getD _ _, chosen_getD _ _, hMaximum⟩
    · dsimp only
      rw [hRest]
      refine .maximum hText hCount ⟨?_, ?_, ?_, ?_⟩
      · rw [given_without_of_ne (by decide)]
        exact hFormat
      · rw [given_without_of_ne (by decide)]
        exact chosen_getD _ _
      · rw [given_without_of_ne (by decide)]
        exact chosen_getD _ _
      · rw [given_without_self]
        rfl

/-- The format is the one that its variable names. -/
theorem OverriddenBy.namesFormat {text : String} (h : OverriddenBy lookup before after)
    (hText : given lookup Variable.format = some text) : NamesFormat text after.format := by
  have hFormat := h.format
  rw [hText] at hFormat
  exact hFormat

/-- The maximum is the count that its variable names. -/
theorem OverriddenBy.namesCount {text : String} (h : OverriddenBy lookup before after)
    (hText : given lookup Variable.maximum = some text) : NamesCount text after.maximum := by
  have hMaximum := h.maximum
  rw [hText] at hMaximum
  exact hMaximum

theorem OverriddenBy.namesFormat_of_without {text : String}
    (h : OverriddenBy (without Variable.maximum lookup) before after)
    (hText : given lookup Variable.format = some text) : NamesFormat text after.format :=
  h.namesFormat ((given_without_of_ne (by decide) lookup).trans hText)

/-- Variables and settings before them allow one end. -/
theorem Ends.unique {first second : Settings} {error other : Option OverrideError}
    (h : Ends lookup before first error) (hOther : Ends lookup before second other) :
    first = second ∧ error = other := by
  cases h with
  | done h =>
      cases hOther with
      | done hOther => exact ⟨h.unique hOther, rfl⟩
      | format hText hFormat => exact absurd (h.namesFormat hText) (hFormat _)
      | maximum hText hCount _ => cases hCount.symm.trans (h.namesCount hText)
  | format hText hFormat =>
      cases hOther with
      | done hOther => exact absurd (hOther.namesFormat hText) (hFormat _)
      | format hAgain _ =>
          cases hText.symm.trans hAgain
          exact ⟨rfl, rfl⟩
      | maximum _ _ hOther => exact absurd (hOther.namesFormat_of_without hText) (hFormat _)
  | maximum hText hCount h =>
      cases hOther with
      | done hOther => cases hCount.symm.trans (hOther.namesCount hText)
      | format hFirst hFormat => exact absurd (h.namesFormat_of_without hFirst) (hFormat _)
      | maximum hAgain hCountAgain hOther =>
          cases hText.symm.trans hAgain
          cases hCount.symm.trans hCountAgain
          exact ⟨h.unique hOther, rfl⟩

/-- Overriding ends in the one way that the variables allow. -/
theorem override_eq_iff {error : Option OverrideError} :
    settings.override lookup = (after, error) ↔ Ends lookup settings after error := by
  constructor
  · intro h
    have hEnds := override_ends lookup settings
    rw [h] at hEnds
    exact hEnds
  · intro h
    obtain ⟨hAfter, hError⟩ := (override_ends lookup settings).unique h
    exact Prod.ext hAfter hError

/-- Overriding succeeds exactly if every setting is what its variable says. -/
theorem override_eq_none_iff :
    settings.override lookup = (after, none) ↔ OverriddenBy lookup settings after := by
  rw [override_eq_iff]
  constructor
  · intro h
    cases h with
    | done h => exact h
  · exact .done

end Override

end Settings

end DocQuery
