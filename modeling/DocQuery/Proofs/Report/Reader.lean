import DocQuery.Report.Csv
import Mathlib.Data.List.Basic

/-! A reader of comma-separated text, and what it reads of a text that was
written. A field may stand between quotes, where a quote is written twice; a
comma ends a field, the end of a line ends a record, and an empty line is no
record. Every record that has a field is read back as it was written. -/
namespace DocQuery.Csv

/-- Where in a field a reader is. -/
inductive Place where
  | start
  /-- Inside a field without quotes. -/
  | bare
  /-- Between the quotes around a field. -/
  | quoted
  /-- Behind a quote that ends the field, unless there is another one. -/
  | closed
  deriving DecidableEq

/-- A reader on its way: the records read so far, the fields of the one it is
in, and the text of the field it is in. -/
structure Reader where
  records : List (List String)
  fields : List String
  text : List Char
  place : Place

namespace Reader

def fresh (records : List (List String)) (fields : List String) : Reader :=
  { records, fields, text := [], place := .start }

/-- The reader after one more character of a field. -/
def take (reader : Reader) (c : Char) (place : Place) : Reader :=
  { reader with text := reader.text ++ [c], place }

def endField (reader : Reader) : Reader :=
  fresh reader.records (reader.fields ++ [String.ofList reader.text])

def endRecord (reader : Reader) : Reader :=
  fresh (reader.records ++ [reader.fields ++ [String.ofList reader.text]]) []

/-- The reader after the end of a line, where an empty line counts for
nothing. -/
def endLine (reader : Reader) : Reader :=
  if reader.place = .start ∧ reader.fields = [] then reader else reader.endRecord

/-- The reader after a quote outside quotes, which only the start of a field and
another quote have before them. -/
def stepQuote (reader : Reader) : Option Reader :=
  match reader.place with
  | .start => some { reader with place := .quoted }
  | .closed => some (reader.take '"' .quoted)
  | .bare => none
  | .quoted => none

/-- The reader after a character outside quotes. -/
def stepOutside (reader : Reader) (c : Char) : Option Reader :=
  if c = ',' then some reader.endField
  else if c = '\n' ∨ c = '\r' then some reader.endLine
  else if c = '"' then reader.stepQuote
  else if reader.place = .closed then none
  else some (reader.take c .bare)

/-- The reader after a character, unless the text is malformed there. -/
def step (reader : Reader) (c : Char) : Option Reader :=
  if reader.place = .quoted then
    some (if c = '"' then { reader with place := .closed } else reader.take c .quoted)
  else reader.stepOutside c

/-- The reader after a text. -/
def run (reader : Reader) (text : List Char) : Option Reader :=
  text.foldlM step reader

/-- All records, once the text has ended. A last line may end with it. -/
def finish (reader : Reader) : Option (List (List String)) :=
  if reader.place = .quoted then none else some reader.endLine.records

end Reader

/-- The records of a text, unless it is malformed. -/
def decode (text : String) : Option (List (List String)) :=
  ((Reader.fresh [] []).run text.toList).bind Reader.finish

namespace Reader

variable {reader : Reader} {c : Char} {text : List Char}

theorem run_append (reader : Reader) (first second : List Char) :
    reader.run (first ++ second) = (reader.run first).bind fun next => next.run second :=
  List.foldlM_append

theorem run_cons_of_step {next : Reader} (h : reader.step c = some next) (text : List Char) :
    reader.run (c :: text) = next.run text := by
  rw [run, List.foldlM_cons, h]
  rfl

theorem run_append_of_run {next : Reader} (h : reader.run text = some next) (rest : List Char) :
    reader.run (text ++ rest) = next.run rest := by
  rw [run_append, h, Option.bind_some]

/-- A character without a meaning of its own is taken as it is. -/
theorem step_of_not_special (hPlace : reader.place = .start ∨ reader.place = .bare)
    (hChar : isSpecial c = false) : reader.step c = some (reader.take c .bare) := by
  simp only [isSpecial, Bool.or_eq_false_iff, beq_eq_false_iff_ne] at hChar
  obtain ⟨⟨⟨hQuote, hComma⟩, hNewline⟩, hReturn⟩ := hChar
  rcases hPlace with hStart | hBare
  · simp [step, stepOutside, hStart, hQuote, hComma, hNewline, hReturn]
  · simp [step, stepOutside, hBare, hQuote, hComma, hNewline, hReturn]

/-- Text without special characters is read into the field as it is. -/
theorem run_of_no_special (hPlace : reader.place = .bare) (h : text.any isSpecial = false) :
    reader.run text = some { reader with text := reader.text ++ text } := by
  induction text generalizing reader with
  | nil => simp [run]
  | cons c text ih =>
      obtain ⟨hChar, hText⟩ := Bool.or_eq_false_iff.mp h
      rw [run_cons_of_step (step_of_not_special (.inr hPlace) hChar), ih rfl hText]
      simp [take, hPlace]

/-- Between quotes every character is taken, and a quote that is written twice
is taken once. -/
theorem run_quoted (hPlace : reader.place = .quoted) (text : List Char) :
    reader.run (text.flatMap quotedChar) = some { reader with text := reader.text ++ text } := by
  induction text generalizing reader with
  | nil => simp [run]
  | cons c text ih =>
      have hTaken : reader.run (quotedChar c) = some (reader.take c .quoted) := by
        by_cases hQuote : c = '"'
        · simp [quotedChar, run, step, stepOutside, stepQuote, take, hQuote, hPlace]
        · simp [quotedChar, run, step, take, hQuote, hPlace]
      rw [List.flatMap_cons, run_append_of_run hTaken, ih rfl]
      simp [take, hPlace]

/-- A reader that has read the text of a field to its end, behind other fields
and records. -/
structure HasRead (reader : Reader) (records : List (List String)) (fields : List String)
    (field : String) : Prop where
  records : reader.records = records
  fields : reader.fields = fields
  text : String.ofList reader.text = field
  outside : reader.place ≠ .quoted
  /-- Only of an empty field nothing has been read. -/
  empty : reader.place = .start → field = ""

section Field

variable {records : List (List String)} {fields : List String}

/-- A quoted field is read back up to its closing quote. -/
theorem hasRead_quoted (field : String) :
    ∃ next, (fresh records fields).run (quoted field.toList) = some next ∧
      next.place = .closed ∧ next.HasRead records fields field := by
  have hOpen : (fresh records fields).step '"' =
      some { records, fields, text := [], place := .quoted } := rfl
  have hClose : step { records, fields, text := field.toList, place := .quoted } '"' =
      some { records, fields, text := field.toList, place := .closed } := rfl
  refine ⟨{ records, fields, text := field.toList, place := .closed }, ?_, rfl, ?_⟩
  · rw [quoted, run_cons_of_step hOpen, run_append_of_run (run_quoted rfl field.toList),
      List.nil_append, run_cons_of_step hClose]
    rfl
  · exact ⟨rfl, rfl, String.ofList_toList, by simp, by simp⟩

/-- However a field is written, the reader has read it where its text ends. -/
theorem hasRead_field (field : String) :
    ∃ next, (fresh records fields).run (Csv.field field) = some next ∧
      next.HasRead records fields field := by
  rw [Csv.field]
  cases hSpecial : field.toList.any isSpecial with
  | true =>
      obtain ⟨next, hRun, _, hRead⟩ := @hasRead_quoted records fields field
      exact ⟨next, hRun, hRead⟩
  | false =>
      cases hText : field.toList with
      | nil =>
          have hEmpty := String.toList_eq_nil_iff.mp hText
          exact ⟨_, rfl, rfl, rfl, hEmpty.symm, by simp [fresh], fun _ => hEmpty⟩
      | cons c text =>
          rw [hText, List.any_cons, Bool.or_eq_false_iff] at hSpecial
          have hFirst := @step_of_not_special (fresh records fields) c (.inl rfl) hSpecial.1
          refine ⟨_, (run_cons_of_step hFirst text).trans (run_of_no_special rfl hSpecial.2), ?_⟩
          have hWhole := (congrArg String.ofList hText.symm).trans String.ofList_toList
          exact ⟨rfl, rfl, hWhole, by simp [take], by simp [take]⟩

theorem HasRead.comma {field : String} (h : reader.HasRead records fields field) :
    reader.step ',' = some (fresh records (fields ++ [field])) := by
  rw [step, if_neg h.outside, stepOutside, if_pos rfl, endField, h.records, h.fields, h.text]

/-- The end of a line ends the record, unless nothing has been read on it. -/
theorem HasRead.newline {field : String} (h : reader.HasRead records fields field)
    (hLine : reader.place ≠ .start ∨ fields ≠ []) :
    reader.step '\n' = some (fresh (records ++ [fields ++ [field]]) []) := by
  have hEmpty : ¬ (reader.place = .start ∧ reader.fields = []) := by
    rw [h.fields, not_and_or]
    exact hLine
  rw [step, if_neg h.outside, stepOutside, if_neg (by decide), if_pos (.inl rfl), endLine,
    if_neg hEmpty, endRecord, h.records, h.fields, h.text]

/-- Fields with commas between them and a newline behind them are read as one
record, unless that is an empty line. -/
theorem run_fields {first : String} {rest : List String}
    (hLine : first ≠ "" ∨ rest ≠ [] ∨ fields ≠ []) :
    (fresh records fields).run
        (List.intercalate [','] ((first :: rest).map Csv.field) ++ ['\n']) =
      some (fresh (records ++ [fields ++ first :: rest]) []) := by
  induction rest generalizing first fields with
  | nil =>
      obtain ⟨next, hRun, hRead⟩ := @hasRead_field records fields first
      have hSome : next.place ≠ .start ∨ fields ≠ [] := by
        rcases hLine with hFirst | hRest | hFields
        · exact .inl (mt hRead.empty hFirst)
        · exact absurd rfl hRest
        · exact .inr hFields
      rw [List.map_singleton, List.intercalate_singleton, run_append_of_run hRun,
        run_cons_of_step (hRead.newline hSome)]
      rfl
  | cons second rest ih =>
      obtain ⟨next, hRun, hRead⟩ := @hasRead_field records fields first
      rw [List.map_cons, List.map_cons, List.intercalate_cons_cons, List.append_assoc,
        List.append_assoc, run_append_of_run hRun, List.singleton_append,
        run_cons_of_step hRead.comma, ← List.map_cons, ih (.inr (.inr (by simp))),
        List.append_assoc, List.singleton_append]

/-- A record that is written is read back, with its line. -/
theorem run_record {record : List String} (h : record ≠ []) :
    (fresh records []).run (Csv.record record) = some (fresh (records ++ [record]) []) := by
  rw [Csv.record]
  split
  · rename_i hSingle
    obtain ⟨next, hRun, hClosed, hRead⟩ := @hasRead_quoted records [] ""
    have hNewline := hRead.newline (.inl (by rw [hClosed]; decide))
    rw [hSingle]
    exact (run_append_of_run hRun _).trans (run_cons_of_step hNewline [])
  · rename_i hMany
    obtain ⟨first, rest, rfl⟩ := List.exists_cons_of_ne_nil h
    refine run_fields ?_
    by_cases hRest : rest = []
    · exact .inl fun hFirst => hMany (by rw [hFirst, hRest])
    · exact .inr (.inl hRest)

end Field

/-- Records are read one after the other. -/
theorem run_records {done records : List (List String)} (h : ∀ record ∈ records, record ≠ []) :
    (fresh done []).run (records.flatMap Csv.record) = some (fresh (done ++ records) []) := by
  induction records generalizing done with
  | nil => rw [List.flatMap_nil, List.append_nil]; rfl
  | cons record rest ih =>
      obtain ⟨hRecord, hRest⟩ := List.forall_mem_cons.mp h
      rw [List.flatMap_cons, run_append_of_run (run_record hRecord), ih hRest, List.append_assoc,
        List.singleton_append]

end Reader

/-- What was written is read back, if every record has a field. -/
theorem decode_encode {records : List (List String)} (h : ∀ record ∈ records, record ≠ []) :
    decode (encode records) = some records := by
  rw [decode, encode, String.toList_ofList, Reader.run_records h]
  rfl

end DocQuery.Csv
