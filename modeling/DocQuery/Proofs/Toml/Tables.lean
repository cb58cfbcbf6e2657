import DocQuery.Toml.Table
import Mathlib.Data.List.Nodup

/-! Changes of the tables of a document. A change only ever adds: a value that
was there stays at its path, and no table comes to have a key twice. -/
namespace DocQuery.Toml

/-- A value that no line adds to: anything but a table that was opened without
braces. -/
def Node.isClosed : Node → Bool
  | .table origin _ => origin == .inline
  | .tables _ => false
  | _ => true

/-- No table has a key twice, at any depth. -/
inductive Node.KeysDistinct : Node → Prop
  | string (text : String) : KeysDistinct (.string text)
  | integer (n : Int) : KeysDistinct (.integer n)
  | float : KeysDistinct .float
  | bool (b : Bool) : KeysDistinct (.bool b)
  | moment : KeysDistinct .moment
  | array {items : List Node} (h : ∀ item ∈ items, KeysDistinct item) : KeysDistinct (.array items)
  | table {origin : Origin} {entries : Entries} (hKeys : (entries.map Prod.fst).Nodup)
      (h : ∀ entry ∈ entries, KeysDistinct entry.2) : KeysDistinct (.table origin entries)
  | tables {rows : List Entries} (h : ∀ row ∈ rows, KeysDistinct (.table .header row)) :
      KeysDistinct (.tables rows)

namespace Entries

/-- A value stands at the end of a path through tables. Where headers in double
brackets opened several tables, the path may lead through any one of them. -/
inductive Holds : Entries → List String → Node → Prop
  | here {entries : Entries} {key : String} {node : Node} (h : entries.lookup key = some node) :
      Holds entries [key] node
  | table {entries below : Entries} {origin : Origin} {key : String} {path : List String}
      {node : Node} (h : entries.lookup key = some (.table origin below))
      (hBelow : Holds below path node) : Holds entries (key :: path) node
  | tables {entries row : Entries} {rows : List Entries} {key : String} {path : List String}
      {node : Node} (h : entries.lookup key = some (.tables rows)) (hRow : row ∈ rows)
      (hBelow : Holds row path node) : Holds entries (key :: path) node

/-- No table in these entries has a key twice, and they have none twice
themselves. -/
def KeysDistinct (entries : Entries) : Prop :=
  (Node.table .header entries).KeysDistinct

/-- Whatever closed value stood at a path stands there still, and keys stay
distinct. -/
structure Grows (before after : Entries) : Prop where
  keeps : ∀ path node, node.isClosed = true → before.Holds path node → after.Holds path node
  keysDistinct : before.KeysDistinct → after.KeysDistinct

/-- Every table of several is still among them, and a new one has grown from
none. -/
structure RowsGrow (rows others : List Entries) : Prop where
  kept : ∀ row ∈ rows, ∃ other ∈ others, row.Grows other
  grown : ∀ other ∈ others, ∃ row, (row ∈ rows ∨ row = []) ∧ row.Grows other

variable {entries below before after changed : Entries} {rows : List Entries} {origin : Origin}
  {key other : String} {path : List String} {node old : Node} {passage : Passage}
  {edit : Origin → Entries → Option Entries}

section Lookups

/-- A key that is there has the new value after a replacement. -/
theorem lookup_replace_self (h : entries.lookup key = some old) (node : Node) :
    (entries.replace key node).lookup key = some node := by
  induction entries with
  | nil => cases h
  | cons entry rest ih =>
      obtain ⟨name, first⟩ := entry
      by_cases hName : name = key
      · simp [replace, hName]
      · rw [List.lookup_cons, beq_eq_false_iff_ne.mpr (Ne.symm hName)] at h
        rw [replace, if_neg hName, List.lookup_cons, beq_eq_false_iff_ne.mpr (Ne.symm hName)]
        exact ih h

/-- A replacement leaves the values of other keys as they were. -/
theorem lookup_replace_of_ne (h : other ≠ key) (node : Node) (entries : Entries) :
    (entries.replace key node).lookup other = entries.lookup other := by
  induction entries with
  | nil => rfl
  | cons entry rest ih =>
      obtain ⟨name, first⟩ := entry
      by_cases hName : name = key
      · subst hName
        simp [replace, List.lookup_cons, beq_eq_false_iff_ne.mpr h]
      · rw [replace, if_neg hName, List.lookup_cons, List.lookup_cons, ih]

theorem lookup_append_of_some (h : entries.lookup other = some old) (last : Entries) :
    (entries ++ last).lookup other = some old := by
  rw [List.lookup_append, h, Option.some_or]

theorem lookup_append_self (h : entries.lookup key = none) (node : Node) :
    (entries ++ [(key, node)]).lookup key = some node := by
  simp [List.lookup_append, h]

/-- A replacement leaves the keys and their order as they were. -/
theorem keys_replace (key : String) (node : Node) (entries : Entries) :
    (entries.replace key node).map Prod.fst = entries.map Prod.fst := by
  induction entries with
  | nil => rfl
  | cons entry rest ih =>
      obtain ⟨name, first⟩ := entry
      by_cases hName : name = key
      · simp [replace, hName]
      · simp [replace, hName, ih]

theorem mem_replace {entry : String × Node} (h : entry ∈ entries.replace key node) :
    entry ∈ entries ∨ entry = (key, node) := by
  induction entries with
  | nil => cases h
  | cons first rest ih =>
      obtain ⟨name, value⟩ := first
      by_cases hName : name = key
      · rw [replace, if_pos hName, hName] at h
        obtain hFirst | hRest := List.mem_cons.mp h
        · exact .inr hFirst
        · exact .inl (List.mem_cons_of_mem _ hRest)
      · rw [replace, if_neg hName] at h
        obtain hFirst | hRest := List.mem_cons.mp h
        · exact .inl (hFirst ▸ List.mem_cons_self)
        · exact (ih hRest).imp_left (List.mem_cons_of_mem _)

theorem mem_of_lookup (h : entries.lookup key = some node) : (key, node) ∈ entries := by
  induction entries with
  | nil => cases h
  | cons first rest ih =>
      obtain ⟨name, value⟩ := first
      rw [List.lookup_cons] at h
      split at h
      · rename_i hName
        rw [eq_of_beq hName, Option.some.inj h]
        exact List.mem_cons_self
      · exact List.mem_cons_of_mem _ (ih h)

theorem not_mem_keys_of_lookup (h : entries.lookup key = none) : key ∉ entries.map Prod.fst := by
  intro hKey
  obtain ⟨⟨name, node⟩, hEntry, rfl⟩ := List.mem_map.mp hKey
  have hNe := List.lookup_eq_none_iff.mp h _ hEntry
  simp at hNe

end Lookups

section Steps

/-- All that a change does at the first key of its path. -/
theorem change_cases (h : entries.change passage edit origin (key :: path) = some after) :
    (∃ opened, entries.lookup key = none ∧
      Entries.change passage edit passage.opens path [] = some opened ∧
      after = entries ++ [(key, .table passage.opens opened)]) ∨
    (∃ origin below changed, entries.lookup key = some (.table origin below) ∧ origin ≠ .inline ∧
      Entries.change passage edit origin path below = some changed ∧
      after = entries.replace key (.table origin changed)) ∨
    ∃ rows changed, entries.lookup key = some (.tables rows) ∧
      Entries.change passage edit .header path (rows.getLast?.getD []) = some changed ∧
      after = entries.replace key (.tables (rows.dropLast ++ [changed])) := by
  rw [Entries.change] at h
  split at h
  · rename_i hNone
    obtain ⟨opened, hOpened, hAfter⟩ := Option.bind_eq_some_iff.mp h
    exact .inl ⟨opened, hNone, hOpened, (Option.some.inj hAfter).symm⟩
  · rename_i inner below hTable
    split at h
    · rename_i hEnters
      obtain ⟨changed, hChanged, hAfter⟩ := Option.bind_eq_some_iff.mp h
      refine .inr (.inl ⟨inner, below, changed, hTable, ?_, hChanged,
        (Option.some.inj hAfter).symm⟩)
      rintro rfl
      cases passage <;> cases hEnters
    · cases h
  · rename_i rows hTables
    obtain ⟨changed, hChanged, hAfter⟩ := Option.bind_eq_some_iff.mp h
    exact .inr (.inr ⟨rows, changed, hTables, hChanged, (Option.some.inj hAfter).symm⟩)
  · cases h

/-- A key is added only where it is new. -/
theorem add_cases (h : entries.add key node = some after) :
    entries.lookup key = none ∧ after = entries ++ [(key, node)] := by
  rw [add] at h
  split at h
  · cases h
  · rename_i hAbsent
    exact ⟨Option.not_isSome_iff_eq_none.mp hAbsent, (Option.some.inj h).symm⟩

/-- A path is split in front of its last key. -/
theorem splitPath_eq_some_iff {way : List String} :
    splitPath path = some (way, key) ↔ path = way ++ [key] := by
  rw [splitPath, Option.map_eq_some_iff]
  constructor
  · rintro ⟨last, hLast, hParts⟩
    obtain ⟨rfl, rfl⟩ := Prod.mk.inj hParts
    obtain ⟨way, rfl⟩ := List.getLast?_eq_some_iff.mp hLast
    rw [List.dropLast_concat]
  · rintro rfl
    exact ⟨key, List.getLast?_concat, by rw [List.dropLast_concat]⟩

/-- A dotted key ends in a table that gets one more key. -/
theorem assign_cases (h : entries.assign path node = some after) :
    ∃ way key edit, path = way ++ [key] ∧ entries.change .key edit .header way = some after ∧
      ∀ origin below changed, edit origin below = some changed →
        Entries.add key node below = some changed := by
  obtain ⟨⟨way, key⟩, hSplit, hChange⟩ := Option.bind_eq_some_iff.mp h
  refine ⟨way, key, _, splitPath_eq_some_iff.mp hSplit, hChange,
    fun origin below changed hEdit => ?_⟩
  split at hEdit
  · exact hEdit
  · cases hEdit

/-- A header opens a new table, or one that headers have only passed so far. -/
theorem openTable_cases (h : entries.openTable key = some after) :
    (entries.lookup key = none ∧ after = entries ++ [(key, .table .header [])]) ∨
    ∃ below, entries.lookup key = some (.table .implicit below) ∧
      after = entries.replace key (.table .header below) := by
  rw [openTable] at h
  split at h
  · exact .inl ⟨‹_›, (Option.some.inj h).symm⟩
  · exact .inr ⟨_, ‹_›, (Option.some.inj h).symm⟩
  · cases h

/-- A header in double brackets opens the first of several tables, or one
more. -/
theorem openRow_cases (h : entries.openRow key = some after) :
    (entries.lookup key = none ∧ after = entries ++ [(key, .tables [[]])]) ∨
    ∃ rows, entries.lookup key = some (.tables rows) ∧
      after = entries.replace key (.tables (rows ++ [[]])) := by
  rw [openRow] at h
  split at h
  · exact .inl ⟨‹_›, (Option.some.inj h).symm⟩
  · exact .inr ⟨_, ‹_›, (Option.some.inj h).symm⟩
  · cases h

end Steps

section Distinct

theorem keysDistinct_table_iff :
    (Node.table origin entries).KeysDistinct ↔
      (entries.map Prod.fst).Nodup ∧ ∀ entry ∈ entries, entry.2.KeysDistinct := by
  constructor
  · intro h
    cases h with
    | table hKeys h => exact ⟨hKeys, h⟩
  · rintro ⟨hKeys, h⟩
    exact .table hKeys h

/-- Distinct keys at every depth are distinct keys here and below every key. -/
theorem keysDistinct_iff :
    entries.KeysDistinct ↔
      (entries.map Prod.fst).Nodup ∧ ∀ entry ∈ entries, entry.2.KeysDistinct :=
  keysDistinct_table_iff

/-- How a table was opened does not matter. -/
theorem keysDistinct_table : (Node.table origin entries).KeysDistinct ↔ entries.KeysDistinct :=
  keysDistinct_table_iff.trans keysDistinct_iff.symm

theorem keysDistinct_tables :
    (Node.tables rows).KeysDistinct ↔ ∀ row ∈ rows, KeysDistinct row := by
  constructor
  · intro h
    cases h with
    | tables h => exact h
  · exact .tables

theorem keysDistinct_nil : KeysDistinct [] :=
  keysDistinct_iff.mpr ⟨List.nodup_nil, by simp⟩

/-- What stands under a key has distinct keys itself. -/
theorem KeysDistinct.lookup (h : entries.KeysDistinct) (hNode : entries.lookup key = some node) :
    node.KeysDistinct :=
  (keysDistinct_iff.mp h).2 _ (mem_of_lookup hNode)

/-- A new key keeps keys distinct. -/
theorem KeysDistinct.append (h : entries.KeysDistinct) (hAbsent : entries.lookup key = none)
    (hNode : node.KeysDistinct) : KeysDistinct (entries ++ [(key, node)]) := by
  obtain ⟨hKeys, hNodes⟩ := keysDistinct_iff.mp h
  refine keysDistinct_iff.mpr ⟨?_, fun entry hEntry => ?_⟩
  · rw [List.map_append, List.map_singleton]
    exact List.nodup_append_comm.mp (List.nodup_cons.mpr ⟨not_mem_keys_of_lookup hAbsent, hKeys⟩)
  · obtain hOld | hNew := List.mem_append.mp hEntry
    · exact hNodes entry hOld
    · rw [List.mem_singleton.mp hNew]
      exact hNode

/-- Another value for a key keeps keys distinct. -/
theorem KeysDistinct.replace (h : entries.KeysDistinct) (hNode : node.KeysDistinct) :
    (entries.replace key node).KeysDistinct := by
  obtain ⟨hKeys, hNodes⟩ := keysDistinct_iff.mp h
  refine keysDistinct_iff.mpr ⟨keys_replace key node entries ▸ hKeys, fun entry hEntry => ?_⟩
  obtain hOld | rfl := mem_replace hEntry
  · exact hNodes entry hOld
  · exact hNode

end Distinct

section Kept

/-- What stands at a path depends on its first key alone. -/
theorem Holds.congr (h : before.Holds path node)
    (hSame : ∀ key node, path.head? = some key → before.lookup key = some node →
      after.lookup key = some node) : after.Holds path node := by
  cases h with
  | here h => exact .here (hSame _ _ rfl h)
  | table h hBelow => exact .table (hSame _ _ rfl h) hBelow
  | tables h hRow hBelow => exact .tables (hSame _ _ rfl h) hRow hBelow

theorem Holds.ne_nil (h : entries.Holds path node) : path ≠ [] := by
  cases h <;> exact List.cons_ne_nil _ _

/-- Only a table gets another value, so only what stands below it has to be
looked at. -/
theorem Holds.replace {found : Node} (h : entries.Holds path found)
    (hClosed : found.isClosed = true) (hOld : entries.lookup key = some old)
    (hOpen : old.isClosed = false)
    (hBelow : ∀ rest, rest ≠ [] → entries.Holds (key :: rest) found →
      (entries.replace key node).Holds (key :: rest) found) :
    (entries.replace key node).Holds path found := by
  by_cases hKey : path.head? = some key
  · obtain ⟨rest, rfl⟩ := List.head?_eq_some_iff.mp hKey
    refine hBelow rest ?_ h
    rintro rfl
    cases h with
    | here hFound =>
        rw [Option.some.inj (hOld.symm.trans hFound), hClosed] at hOpen
        cases hOpen
    | table _ hNil => exact hNil.ne_nil rfl
    | tables _ _ hNil => exact hNil.ne_nil rfl
  · refine h.congr fun first value hFirst hValue => ?_
    have hNe : first ≠ key := fun hSame => hKey (hSame ▸ hFirst)
    rw [lookup_replace_of_ne hNe]
    exact hValue

end Kept

section Growth

theorem Grows.refl (entries : Entries) : entries.Grows entries :=
  ⟨fun _ _ _ h => h, fun h => h⟩

/-- Growth adds up, line after line. -/
theorem Grows.trans (h : before.Grows entries) (hNext : entries.Grows after) :
    before.Grows after :=
  ⟨fun path node hClosed hHolds => hNext.keeps path node hClosed (h.keeps path node hClosed hHolds),
    fun hDistinct => hNext.keysDistinct (h.keysDistinct hDistinct)⟩

/-- Entries grow by a key that is new. -/
theorem grows_append (hAbsent : entries.lookup key = none) (hNode : node.KeysDistinct) :
    entries.Grows (entries ++ [(key, node)]) where
  keeps _ _ _ hHolds := hHolds.congr fun _ _ _ hFound => lookup_append_of_some hFound _
  keysDistinct hDistinct := hDistinct.append hAbsent hNode

/-- Entries grow with a table among them. -/
theorem grows_replace_table (h : entries.lookup key = some (.table origin below))
    (hOpen : origin ≠ .inline) (hGrows : below.Grows changed) (next : Origin) :
    entries.Grows (entries.replace key (.table next changed)) where
  keeps path found hClosed hHolds := by
    refine hHolds.replace hClosed h (beq_eq_false_iff_ne.mpr hOpen) fun rest hRest hThere => ?_
    cases hThere with
    | here => exact absurd rfl hRest
    | table hTable hBelow =>
        cases h.symm.trans hTable
        exact .table (lookup_replace_self h _) (hGrows.keeps rest found hClosed hBelow)
    | tables hTables => cases h.symm.trans hTables
  keysDistinct hDistinct :=
    hDistinct.replace (keysDistinct_table.mpr
      (hGrows.keysDistinct (keysDistinct_table.mp (hDistinct.lookup h))))

/-- Entries grow with several tables among them. -/
theorem grows_replace_tables (h : entries.lookup key = some (.tables rows)) {others : List Entries}
    (hGrow : RowsGrow rows others) : entries.Grows (entries.replace key (.tables others)) where
  keeps path found hClosed hHolds := by
    refine hHolds.replace hClosed h rfl fun rest hRest hThere => ?_
    cases hThere with
    | here => exact absurd rfl hRest
    | table hTable => cases h.symm.trans hTable
    | @tables _ row _ _ _ _ hTables hRow hBelow =>
        cases h.symm.trans hTables
        obtain ⟨other, hOther, hGrows⟩ := hGrow.kept row hRow
        exact .tables (lookup_replace_self h _) hOther (hGrows.keeps rest found hClosed hBelow)
  keysDistinct hDistinct := by
    refine hDistinct.replace (keysDistinct_tables.mpr fun other hOther => ?_)
    obtain ⟨row, hRow | rfl, hGrows⟩ := hGrow.grown other hOther
    · exact hGrows.keysDistinct (keysDistinct_tables.mp (hDistinct.lookup h) row hRow)
    · exact hGrows.keysDistinct keysDistinct_nil

/-- Of several tables the last one is changed. -/
theorem rowsGrow_last (hGrows : (rows.getLast?.getD []).Grows changed) :
    RowsGrow rows (rows.dropLast ++ [changed]) := by
  obtain rfl | ⟨firsts, last, rfl⟩ := rows.eq_nil_or_concat'
  · exact ⟨by simp, fun other hOther => ⟨[], .inr rfl, List.mem_singleton.mp hOther ▸ hGrows⟩⟩
  · rw [List.getLast?_concat] at hGrows
    rw [List.dropLast_concat]
    refine ⟨fun row hRow => ?_, fun other hOther => ?_⟩
    · obtain hFirst | hLast := List.mem_append.mp hRow
      · exact ⟨row, List.mem_append_left _ hFirst, .refl row⟩
      · rw [List.mem_singleton.mp hLast]
        exact ⟨changed, List.mem_append_right _ List.mem_cons_self, hGrows⟩
    · obtain hFirst | hLast := List.mem_append.mp hOther
      · exact ⟨other, .inl (List.mem_append_left _ hFirst), .refl other⟩
      · rw [List.mem_singleton.mp hLast]
        exact ⟨last, .inl (List.mem_append_right _ List.mem_cons_self), hGrows⟩

/-- One more table is opened behind several. -/
theorem rowsGrow_open (rows : List Entries) : RowsGrow rows (rows ++ [[]]) := by
  refine ⟨fun row hRow => ⟨row, List.mem_append_left _ hRow, .refl row⟩, fun other hOther => ?_⟩
  obtain hOld | hNew := List.mem_append.mp hOther
  · exact ⟨other, .inl hOld, .refl other⟩
  · exact ⟨other, .inr (List.mem_singleton.mp hNew), .refl other⟩

/-- Entries grow along a path if they grow at its end. -/
theorem grows_change
    (hEdit : ∀ origin below changed, edit origin below = some changed → Grows below changed)
    (h : entries.change passage edit origin path = some after) : entries.Grows after := by
  induction path generalizing entries origin after with
  | nil => exact hEdit origin entries after h
  | cons key path ih =>
      obtain ⟨opened, hAbsent, hOpened, rfl⟩ |
          ⟨inner, below, changed, hTable, hOpen, hChanged, rfl⟩ |
        ⟨rows, changed, hTables, hChanged, rfl⟩ := change_cases h
      · have hNew := (ih hOpened).keysDistinct keysDistinct_nil
        exact grows_append hAbsent (keysDistinct_table.mpr hNew)
      · exact grows_replace_table hTable hOpen (ih hChanged) inner
      · exact grows_replace_tables hTables (rowsGrow_last (ih hChanged))

theorem grows_add (hNode : node.KeysDistinct) (h : entries.add key node = some after) :
    entries.Grows after := by
  obtain ⟨hAbsent, rfl⟩ := add_cases h
  exact grows_append hAbsent hNode

/-- A header may open a table that was only passed so far. -/
theorem grows_openTable (h : entries.openTable key = some after) : entries.Grows after := by
  obtain ⟨hAbsent, rfl⟩ | ⟨below, hTable, rfl⟩ := openTable_cases h
  · exact grows_append hAbsent (keysDistinct_table.mpr keysDistinct_nil)
  · exact grows_replace_table hTable (by decide) (.refl below) .header

/-- Entries grow by one more of several tables. -/
theorem grows_openRow (h : entries.openRow key = some after) : entries.Grows after := by
  obtain ⟨hAbsent, rfl⟩ | ⟨rows, hTables, rfl⟩ := openRow_cases h
  · refine grows_append hAbsent (keysDistinct_tables.mpr fun row hRow => ?_)
    exact List.mem_singleton.mp hRow ▸ keysDistinct_nil
  · exact grows_replace_tables hTables (rowsGrow_open rows)

/-- Entries grow by a dotted key. -/
theorem grows_assign (hNode : node.KeysDistinct) (h : entries.assign path node = some after) :
    entries.Grows after := by
  obtain ⟨way, key, edit, -, hChange, hEdit⟩ := assign_cases h
  exact grows_change (fun _ _ _ hChanged => grows_add hNode (hEdit _ _ _ hChanged)) hChange

/-- Entries grow by a header if they do so at its last key. -/
theorem grows_applyHeader {step : String → Entries → Option Entries}
    (hStep : ∀ key below changed, step key below = some changed → Grows below changed)
    (h : entries.applyHeader path step = some after) : entries.Grows after := by
  obtain ⟨⟨way, key⟩, -, hChange⟩ := Option.bind_eq_some_iff.mp h
  exact grows_change (fun _ => hStep key) hChange

/-- Entries grow by a key below a header. -/
theorem grows_assignBelow {current : List String} (hNode : node.KeysDistinct)
    (h : entries.assignBelow current path node = some after) : entries.Grows after :=
  grows_change (fun _ _ _ => grows_assign hNode) h

end Growth

section Given

/-- A change leads to whatever the edit at its end leads to. -/
theorem holds_change {last : List String}
    (hEdit : ∀ origin below changed, edit origin below = some changed → Holds changed last node)
    (h : entries.change passage edit origin path = some after) :
    after.Holds (path ++ last) node := by
  induction path generalizing entries origin after with
  | nil => exact hEdit origin entries after h
  | cons key path ih =>
      obtain ⟨opened, hAbsent, hOpened, rfl⟩ | ⟨inner, below, changed, hTable, -, hChanged, rfl⟩ |
        ⟨rows, changed, hTables, hChanged, rfl⟩ := change_cases h
      · exact .table (lookup_append_self hAbsent _) (ih hOpened)
      · exact .table (lookup_replace_self hTable _) (ih hChanged)
      · exact .tables (lookup_replace_self hTables _)
          (List.mem_append_right _ List.mem_cons_self) (ih hChanged)

/-- A dotted key gets its value at its own path. -/
theorem holds_assign (h : entries.assign path node = some after) : after.Holds path node := by
  obtain ⟨way, key, edit, rfl, hChange, hEdit⟩ := assign_cases h
  refine holds_change (fun origin below changed hChanged => ?_) hChange
  obtain ⟨hAbsent, rfl⟩ := add_cases (hEdit origin below changed hChanged)
  exact .here (lookup_append_self hAbsent node)

/-- A key below a header gets its value at the path of both. -/
theorem holds_assignBelow {current : List String}
    (h : entries.assignBelow current path node = some after) :
    after.Holds (current ++ path) node :=
  holds_change (fun _ _ _ => holds_assign) h

end Given

end Entries

end DocQuery.Toml
