import DocQuery.Proofs.Report.Reader
import Mathlib.Data.List.Forall2
import Mathlib.Data.List.Induction

/-! Tables as text, read back. A reader of comma-separated text finds the header
and one record for every row, each with as many cells as there are columns. The
columns are the flattened names of all rows in the order in which they are first
seen, and a cell shows what its row holds under its column. -/
namespace DocQuery

section FirstSeen

variable {α : Type} [DecidableEq α]

/-- An item at the end is kept if it has not been seen before. -/
theorem eraseDups_concat (items : List α) (item : α) :
    (items ++ [item]).eraseDups = items.eraseDups ++ if item ∈ items then [] else [item] := by
  rw [List.eraseDups_append]
  by_cases hOld : item ∈ items
  · simp [List.removeAll, hOld]
  · simp [List.removeAll, hOld, List.eraseDups_cons]

/-- Without repetitions the members of a list stand in the order in which they
are first seen. -/
theorem pairwise_idxOf_eraseDups (items : List α) :
    items.eraseDups.Pairwise fun a b => items.idxOf a < items.idxOf b := by
  induction items using List.reverseRecOn with
  | nil => exact List.Pairwise.nil
  | append_singleton items item ih =>
      have hEarlier : ∀ a ∈ items.eraseDups, (items ++ [item]).idxOf a = items.idxOf a :=
        fun a ha => List.idxOf_append_of_mem (List.mem_eraseDups.mp ha)
      have hOld : items.eraseDups.Pairwise fun a b =>
          (items ++ [item]).idxOf a < (items ++ [item]).idxOf b := by
        refine ih.imp_of_mem fun ha hb hLess => ?_
        rwa [hEarlier _ ha, hEarlier _ hb]
      rw [eraseDups_concat]
      split
      · rwa [List.append_nil]
      · rename_i hNew
        refine List.pairwise_append.mpr ⟨hOld, List.pairwise_singleton _ _, fun a ha b hb => ?_⟩
        have hBefore : items.idxOf a < items.length :=
          List.idxOf_lt_length_iff.mpr (List.mem_eraseDups.mp ha)
        rw [List.mem_singleton.mp hb, hEarlier a ha, List.idxOf_append, if_neg hNew]
        omega

end FirstSeen

namespace Table

/-- What a cell shows of a flattened row. -/
inductive Shows (row : Fields) (column : String) : String → Prop where
  | missing (h : row.get? column = none) : Shows row column ""
  | null (h : row.get? column = some .null) : Shows row column ""
  | text {text : String} (h : row.get? column = some (.string text)) : Shows row column text
  | other {value : Value} (h : row.get? column = some value) (hNull : value ≠ .null)
      (hText : value.text? = none) : Shows row column value.compact

/-- A cell shows the value under its column, or is empty if there is none. -/
theorem shows_cellAt (row : Fields) (column : String) : Shows row column (cellAt row column) := by
  rw [cellAt]
  cases hFound : row.get? column with
  | none => exact .missing hFound
  | some value =>
      cases value with
      | null => exact .null hFound
      | string text => exact .text hFound
      | _ => exact .other hFound (by simp) rfl

/-- The flattened names of records, one record after the other. -/
def namesSeen (records : List Value) : List String :=
  records.flatMap fun record => (flatRow record).keys

/-- A header with lines of cells that show records. -/
structure ShowsAll (records : List Value) (header : List String) (lines : List (List String)) :
    Prop where
  /-- There is a line for every record. -/
  length : lines.length = records.length
  /-- A line has a cell for every column. -/
  widths : ∀ line ∈ lines, line.length = header.length
  /-- The columns are the flattened names of the records, each once. -/
  columns : ∀ column, column ∈ header ↔ ∃ record ∈ records, column ∈ (flatRow record).keys
  nodup : header.Nodup
  /-- The columns are in the order in which their names are first seen. -/
  firstSeen : header.Pairwise fun a b =>
    (namesSeen records).idxOf a < (namesSeen records).idxOf b
  /-- A cell shows what its record holds under its column. -/
  cells : List.Forall₂ (fun record line => List.Forall₂ (Shows (flatRow record)) header line)
    records lines

/-- The header names every column in the order in which it is first seen. -/
theorem header_ofRecords (records : List Value) :
    (ofRecords records).header = (namesSeen records).eraseDups := by
  rw [namesSeen, ofRecords, columns, List.flatMap_map]

theorem showsAll_ofRecords (records : List Value) :
    ShowsAll records (ofRecords records).header (ofRecords records).rows := by
  have hHeader := header_ofRecords records
  have hRows : (ofRecords records).rows =
      records.map fun record => (ofRecords records).header.map (cellAt (flatRow record)) := by
    rw [ofRecords, List.map_map]
    rfl
  have hOrder := pairwise_idxOf_eraseDups (namesSeen records)
  constructor
  · rw [hRows, List.length_map]
  · intro line hLine
    rw [hRows] at hLine
    obtain ⟨record, _, rfl⟩ := List.mem_map.mp hLine
    rw [List.length_map]
  · intro column
    rw [hHeader, List.mem_eraseDups, namesSeen, List.mem_flatMap]
  · rw [hHeader, List.Nodup]
    refine hOrder.imp fun hLess hSame => ?_
    rw [hSame] at hLess
    exact Nat.lt_irrefl _ hLess
  · rwa [hHeader]
  · rw [hRows, List.forall₂_map_right_iff, List.forall₂_same]
    intro record _
    rw [List.forall₂_map_right_iff, List.forall₂_same]
    exact fun column _ => shows_cellAt (flatRow record) column

/-- The text of a table with a column is read back as its header and its
rows. -/
theorem decode_ofTable {table : Table} (hHeader : table.header ≠ [])
    (hRows : ∀ row ∈ table.rows, row.length = table.header.length) :
    Csv.decode (Csv.ofTable table) = some (table.header :: table.rows) := by
  rw [Csv.ofTable, if_neg (by rwa [List.isEmpty_iff])]
  refine Csv.decode_encode (List.forall_mem_cons.mpr ⟨hHeader, fun row hRow hEmpty => hHeader ?_⟩)
  exact List.length_eq_zero_iff.mp ((hRows row hRow).symm.trans (congrArg List.length hEmpty))

/-- The text of records with a column is read back as a header with lines of
cells that show them. -/
theorem reading_shows_records {records : List Value} (h : ∃ record ∈ records, flatRow record ≠ []) :
    ∃ header lines, Csv.decode (Csv.ofTable (ofRecords records)) = some (header :: lines) ∧
      ShowsAll records header lines := by
  have hShows := showsAll_ofRecords records
  have hHeader : (ofRecords records).header ≠ [] := by
    obtain ⟨record, hRecord, hSome⟩ := h
    obtain ⟨field, fields, hFields⟩ := List.exists_cons_of_ne_nil hSome
    have hColumn : field.1 ∈ (ofRecords records).header :=
      (hShows.columns _).mpr ⟨record, hRecord, hFields ▸ List.mem_cons_self⟩
    exact List.ne_nil_of_mem hColumn
  exact ⟨_, _, decode_ofTable hHeader hShows.widths, hShows⟩

/-- Records with a comma, a quote and the end of a line in them, and one that is
no object. -/
def mixedRecords : List Value :=
  [.object [("a,b", .string "x\"\n"), ("c", .object [("d", .null)])],
    .object [("c", .object [("d", .array [.string ""])]), ("", .string "")], .bool true]

/-- Records with a comma, a quote, a line break and different columns, and a
bare value. -/
theorem reading_shows_records_mixed :
    (∃ record ∈ mixedRecords, flatRow record ≠ []) ∧
      ∃ header lines, Csv.decode (Csv.ofTable (ofRecords mixedRecords)) = some (header :: lines) ∧
        ShowsAll mixedRecords header lines ∧ header :: lines =
          [["a,b", "c.d", "", "value"], ["x\"\n", "", "", ""], ["", "[\"\"]", "", ""],
            ["", "", "", "true"]] := by
  have hColumn : ∃ record ∈ mixedRecords, flatRow record ≠ [] :=
    ⟨.bool true, by simp [mixedRecords], by simp [flatRow]⟩
  obtain ⟨header, lines, hRead, hShows⟩ := reading_shows_records hColumn
  refine ⟨hColumn, header, lines, hRead, hShows, Option.some.inj (hRead.symm.trans ?_)⟩
  decide +kernel

end Table

end DocQuery
