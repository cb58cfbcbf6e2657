import DocQuery.Proofs.Settings.Environment
import DocQuery.Proofs.Settings.Override
import DocQuery.Proofs.Toml.Documents
import DocQuery.Settings.Load

/-! Which source decides a setting. A variable that is set and not blank wins
over the document, and the document over the default. Variables of a file count
only where the environment has none. -/
namespace DocQuery.Settings

open Toml

variable {settings : Settings} {α : Type}

section Document

variable {root entries : Entries} {names : List String} {part key : String} {node : Node}

/-- A part of a document is a table without this key, or it is missing as a
whole. -/
def Lacks (root : Entries) (part key : String) : Prop :=
  ∀ node, root.lookup part = some node →
    ∃ origin below, node = .table origin below ∧ below.lookup key = none

/-- The settings of a document are what its lines say, and the defaults where
there are none. -/
structure FollowsDocument (root : Entries) (settings : Settings) : Prop where
  format : ∀ word, root.Holds ["output", "format"] (.string word) →
    Format.ofWord? word = some settings.format
  directory : ∀ text, root.Holds ["output", "directory"] (.string text) → settings.directory = text
  level : ∀ text, root.Holds ["logging", "level"] (.string text) → settings.level = text
  maximum : ∀ n, root.Holds ["limits", "max_documents"] (.integer n) → n = settings.maximum
  standardFormat : Lacks root "output" "format" → settings.format = ({} : Settings).format
  standardDirectory : Lacks root "output" "directory" →
    settings.directory = ({} : Settings).directory
  standardLevel : Lacks root "logging" "level" → settings.level = ({} : Settings).level
  standardMaximum : Lacks root "limits" "max_documents" → settings.maximum = ({} : Settings).maximum

theorem setting_of_lookup {read : Node → Option α} {default : α}
    (h : entries.lookup key = some node) :
    setting read key default entries = read node := by
  rw [setting, h]

theorem setting_of_missing {read : Node → Option α} {default : α} (h : entries.lookup key = none) :
    setting read key default entries = some default := by
  rw [setting, h]

/-- What stands below a part is among its settings, unless the part is several
tables. -/
theorem lookup_of_holds (hPart : setting (sectionEntries names) part [] root = some entries)
    (h : root.Holds [part, key] node) :
    entries.lookup key = some node ∨ ∃ (rows : List Entries) (row : Entries), row ∈ rows ∧
      row.lookup key = some node ∧ entries = names.zip (rows.map (.table .header)) := by
  cases h with
  | table hTable hBelow =>
      rw [setting_of_lookup hTable] at hPart
      cases hPart
      cases hBelow with
      | here h => exact .inl h
      | table _ hNil => exact absurd rfl hNil.ne_nil
      | tables _ _ hNil => exact absurd rfl hNil.ne_nil
  | @tables _ row rows _ _ _ hTables hRow hBelow =>
      rw [setting_of_lookup hTables] at hPart
      refine .inr ⟨rows, row, hRow, ?_, (Option.some.inj hPart).symm⟩
      cases hBelow with
      | here h => exact h
      | table _ hNil => exact absurd rfl hNil.ne_nil
      | tables _ _ hNil => exact absurd rfl hNil.ne_nil

/-- A part that lacks a key has no setting under it. -/
theorem lookup_of_lacks (hPart : setting (sectionEntries names) part [] root = some entries)
    (h : Lacks root part key) : entries.lookup key = none := by
  cases hNode : root.lookup part with
  | none =>
      rw [setting_of_missing hNode] at hPart
      rw [← Option.some.inj hPart, List.lookup_nil]
  | some node =>
      obtain ⟨origin, below, rfl, hKey⟩ := h node hNode
      rw [setting_of_lookup hNode] at hPart
      rw [← Option.some.inj hPart, hKey]

/-- A table that has a text for one of its keys names no format. -/
theorem formatOfNode?_table {text : String} {origin : Origin}
    (h : entries.lookup key = some (.string text)) :
    formatOfNode? (.table origin entries) = none := by
  unfold formatOfNode?
  split
  · rename_i hString
    cases hString
  · rename_i word inner hTable
    cases hTable
    rw [List.lookup_cons, List.lookup_nil] at h
    split at h
    · rw [Option.some.inj h]
      rfl
    · cases h
  · rfl

/-- Several tables are no output part if one of them has a text for one of its
keys. -/
theorem not_output_tables {rows : List Entries} {row : Entries} {text : String} {format : Format}
    {directory standard : String} (hRow : row ∈ rows) (hText : row.lookup key = some (.string text))
    (hFormat : setting formatOfNode? "format" .json
      (["format", "directory"].zip (rows.map (.table .header))) = some format)
    (hDirectory : setting textOfNode? "directory" standard
      (["format", "directory"].zip (rows.map (.table .header))) = some directory) : False := by
  cases rows with
  | nil => cases hRow
  | cons first rest =>
      cases rest with
      | nil =>
          obtain rfl := List.mem_singleton.mp hRow
          have hNone : formatOfNode? (.table .header row) = some format := hFormat
          rw [formatOfNode?_table hText] at hNone
          cases hNone
      | cons second rest =>
          have hNone : textOfNode? (.table .header second) = some directory := hDirectory
          cases hNone

/-- Several tables are no part of one setting that is not itself a table. -/
theorem not_single_tables {rows : List Entries} {row : Entries} {read : Node → Option α}
    {standard found : α} (hRead : ∀ row, read (.table .header row) = none) (hRow : row ∈ rows)
    (h : setting read key standard ([key].zip (rows.map (.table .header))) = some found) :
    False := by
  cases rows with
  | nil => cases hRow
  | cons first rest =>
      have hFirst : ([key].zip ((first :: rest).map (Node.table .header))).lookup key =
          some (.table .header first) := by
        simp
      rw [setting_of_lookup hFirst, hRead] at h
      cases h

/-- The parts of a document and the settings in them. -/
theorem ofEntries?_cases (h : ofEntries? root = some settings) :
    ∃ output logging limits,
      setting (sectionEntries ["format", "directory"]) "output" [] root = some output ∧
      setting (sectionEntries ["level"]) "logging" [] root = some logging ∧
      setting (sectionEntries ["max_documents"]) "limits" [] root = some limits ∧
      setting formatOfNode? "format" ({} : Settings).format output = some settings.format ∧
      setting textOfNode? "directory" ({} : Settings).directory output = some settings.directory ∧
      setting textOfNode? "level" ({} : Settings).level logging = some settings.level ∧
      setting countOfNode? "max_documents" ({} : Settings).maximum limits =
        some settings.maximum := by
  obtain ⟨output, hOutput, h⟩ := Option.bind_eq_some_iff.mp h
  obtain ⟨logging, hLogging, h⟩ := Option.bind_eq_some_iff.mp h
  obtain ⟨limits, hLimits, h⟩ := Option.bind_eq_some_iff.mp h
  obtain ⟨format, hFormat, h⟩ := Option.bind_eq_some_iff.mp h
  obtain ⟨directory, hDirectory, h⟩ := Option.bind_eq_some_iff.mp h
  obtain ⟨level, hLevel, h⟩ := Option.bind_eq_some_iff.mp h
  obtain ⟨maximum, hMaximum, h⟩ := Option.bind_eq_some_iff.mp h
  cases h
  exact ⟨output, logging, limits, hOutput, hLogging, hLimits, hFormat, hDirectory, hLevel, hMaximum⟩

/-- Settings that can be read from a document are what its lines say. -/
theorem follows_of_ofEntries? (h : ofEntries? root = some settings) :
    FollowsDocument root settings := by
  obtain ⟨output, logging, limits, hOutput, hLogging, hLimits, hFormat, hDirectory, hLevel,
    hMaximum⟩ := ofEntries?_cases h
  refine ⟨fun word hHolds => ?_, fun text hHolds => ?_, fun text hHolds => ?_, fun n hHolds => ?_,
    fun hLacks => ?_, fun hLacks => ?_, fun hLacks => ?_, fun hLacks => ?_⟩
  · obtain hWord | ⟨rows, row, hRow, hText, rfl⟩ := lookup_of_holds hOutput hHolds
    · rw [setting_of_lookup hWord] at hFormat
      exact hFormat
    · exact (not_output_tables hRow hText hFormat hDirectory).elim
  · obtain hDirectoryText | ⟨rows, row, hRow, hText, rfl⟩ := lookup_of_holds hOutput hHolds
    · rw [setting_of_lookup hDirectoryText] at hDirectory
      exact (Option.some.inj hDirectory).symm
    · exact (not_output_tables hRow hText hFormat hDirectory).elim
  · obtain hText | ⟨rows, row, hRow, -, rfl⟩ := lookup_of_holds hLogging hHolds
    · rw [setting_of_lookup hText] at hLevel
      exact (Option.some.inj hLevel).symm
    · exact (not_single_tables (fun _ => rfl) hRow hLevel).elim
  · obtain hCount | ⟨rows, row, hRow, -, rfl⟩ := lookup_of_holds hLimits hHolds
    · rw [setting_of_lookup hCount] at hMaximum
      cases n with
      | ofNat n => exact congrArg Int.ofNat (Option.some.inj hMaximum)
      | negSucc n => cases hMaximum
    · exact (not_single_tables (fun _ => rfl) hRow hMaximum).elim
  · rw [setting_of_missing (lookup_of_lacks hOutput hLacks)] at hFormat
    exact (Option.some.inj hFormat).symm
  · rw [setting_of_missing (lookup_of_lacks hOutput hLacks)] at hDirectory
    exact (Option.some.inj hDirectory).symm
  · rw [setting_of_missing (lookup_of_lacks hLogging hLacks)] at hLevel
    exact (Option.some.inj hLevel).symm
  · rw [setting_of_missing (lookup_of_lacks hLimits hLacks)] at hMaximum
    exact (Option.some.inj hMaximum).symm

end Document

section Load

variable {document assignments : Option String} {environment : Environment}

/-- The variables that count: those of the environment and, if there is one, of
the file. -/
def completed (environment : Environment) (assignments : Option String) : Option Environment :=
  match assignments with
  | none => some environment
  | some text => environment.addFile text

/-- Loading completes the environment, reads the document and overrides its
settings, in this order. -/
theorem load_eq (document assignments : Option String) (environment : Environment) :
    load document assignments environment =
      match completed environment assignments with
      | none => .error .environment
      | some environment =>
          match ofDocument document with
          | none => .error .document
          | some settings =>
              match settings.override environment.get? with
              | (settings, none) => .ok settings
              | (_, some error) => .error (.override error) :=
  rfl

/-- Loading succeeds exactly if the file, the document and the variables can be
read. -/
theorem load_eq_ok_iff :
    load document assignments environment = .ok settings ↔
      ∃ complete base, completed environment assignments = some complete ∧
        ofDocument document = some base ∧ OverriddenBy complete.get? base settings := by
  rw [load_eq]
  cases completed environment assignments with
  | none => simp
  | some complete =>
      cases ofDocument document with
      | none => simp
      | some base =>
          simp only [Option.some.injEq, exists_eq_left', ← override_eq_none_iff, exists_and_left]
          obtain ⟨after, error⟩ := base.override complete.get?
          cases error <;> simp

/-- The first source that cannot be read is the one an error is about. -/
theorem load_eq_error_iff {error : LoadError} :
    load document assignments environment = .error error ↔
      (completed environment assignments = none ∧ error = .environment) ∨
      ∃ complete, completed environment assignments = some complete ∧
        ((ofDocument document = none ∧ error = .document) ∨
        ∃ base after fault, ofDocument document = some base ∧
          Ends complete.get? base after (some fault) ∧ error = .override fault) := by
  rw [load_eq]
  cases completed environment assignments with
  | none => simp [eq_comm]
  | some complete =>
      cases ofDocument document with
      | none => simp [eq_comm]
      | some base =>
          simp only [Option.some.injEq, exists_eq_left', ← override_eq_iff, exists_and_left]
          obtain ⟨after, fault⟩ := base.override complete.get?
          cases fault <;> simp [eq_comm]

/-- Variables of the environment come first, and those of the file only after
them. -/
theorem get?_completed {complete : Environment}
    (h : completed environment assignments = some complete) :
    ∃ added : List (String × String), (assignments = none → added = []) ∧
      ∀ name, complete.get? name = (environment.get? name).or (added.lookup name) := by
  cases assignments with
  | none =>
      cases h
      exact ⟨[], fun _ => rfl, fun name => (Option.or_none).symm⟩
  | some text =>
      obtain ⟨-, added, -, -, hGet⟩ := Environment.get?_addFile h
      refine ⟨added, fun hNone => ?_, hGet⟩
      cases hNone

/-- The environment wins over the file, both over the document, and that over
the defaults. -/
theorem load_precedence (h : load document assignments environment = .ok settings) :
    ∃ (added : List (String × String)) (base : Settings),
      OverriddenBy (fun name => (environment.get? name).or (added.lookup name)) base settings ∧
      (assignments = none → added = []) ∧ (document = none → base = {}) ∧
      ∀ text, document = some text →
        ∃ root, Entries.ofText? text = some root ∧ FollowsDocument root base := by
  obtain ⟨complete, base, hComplete, hBase, hOverridden⟩ := load_eq_ok_iff.mp h
  obtain ⟨added, hNone, hGet⟩ := get?_completed hComplete
  rw [funext hGet] at hOverridden
  refine ⟨added, base, hOverridden, hNone, ?_, ?_⟩
  · rintro rfl
    exact (Option.some.inj hBase).symm
  · rintro text rfl
    obtain ⟨root, hRoot, hSettings⟩ := Option.bind_eq_some_iff.mp hBase
    exact ⟨root, hRoot, follows_of_ofEntries? hSettings⟩

end Load

end DocQuery.Settings
