import DocQuery.Settings.Environment

/-! What a file does to an environment. It adds variables behind those that are
there, so a variable that is set keeps its value, and of two lines for one name
the first counts. References show in values alone: whether a file can be read
does not depend on the environment. -/
namespace DocQuery.Environment

variable {environment after : Environment} {name other value : String}

/-- The environment with variables added one after the other. -/
def addAll (environment : Environment) (added : List (String × String)) : Environment :=
  added.foldl (fun environment assignment => environment.add assignment.1 assignment.2) environment

section Lookups

/-- A variable that is set keeps its value, and one that is not takes the new
one. -/
theorem get?_add (environment : Environment) (name value other : String) :
    (environment.add name value).get? other =
      (environment.get? other).or (if other = name then some value else none) := by
  rw [add]
  split
  · rename_i hSet
    obtain ⟨old, hOld⟩ := Option.isSome_iff_exists.mp hSet
    by_cases hName : other = name
    · rw [hName, hOld, Option.some_or]
    · rw [if_neg hName, Option.or_none]
  · rw [get?, get?, List.lookup_append, List.lookup_cons, List.lookup_nil]
    by_cases hName : other = name
    · rw [if_pos hName, beq_iff_eq.mpr hName]
    · rw [if_neg hName, beq_eq_false_iff_ne.mpr hName]

/-- What was there wins over what is added, and of that the first. -/
theorem get?_addAll (environment : Environment) (added : List (String × String)) (name : String) :
    (environment.addAll added).get? name = (environment.get? name).or (added.lookup name) := by
  induction added generalizing environment with
  | nil => rw [List.lookup_nil, Option.or_none]; rfl
  | cons assignment added ih =>
      obtain ⟨first, value⟩ := assignment
      have hRest : (environment.addAll ((first, value) :: added)).get? name =
          ((environment.add first value).addAll added).get? name := rfl
      rw [hRest, ih, get?_add, Option.or_assoc, List.lookup_cons]
      by_cases hName : name = first
      · rw [if_pos hName, beq_iff_eq.mpr hName, Option.some_or]
      · rw [if_neg hName, beq_eq_false_iff_ne.mpr hName, Option.none_or]

end Lookups

section Values

/-- References never decide whether a value can be read. -/
theorem isSome_readValue (environment other : Environment) (mode : Mode) (text : List Char) :
    (readValue environment mode text).isSome = (readValue other mode text).isSome := by
  fun_induction readValue environment mode text with
  | case18 inDouble c rest ih =>
      simp only [readValue]
      cases escaped? c with
      | none => rfl
      | some plain => simp [Option.isSome_bind, ih]
  | case22 inDouble name c rest hChar hBrace hReference ih =>
      simp only [readValue, if_neg hChar, if_neg hBrace, if_neg hReference, Option.isSome_map, ih]
  | _ => simp_all [readValue]

/-- The name that a line gives a value. -/
def assignedName? (line : List Char) : Option String :=
  (takeAssignment (Text.trimWhere Text.isBlank line)).map Prod.fst

/-- Whether a line can be read is a matter of its text alone. -/
theorem isSome_addLine (environment other : Environment) (line : List Char) :
    (environment.addLine line).isSome = (other.addLine line).isSome := by
  unfold addLine
  split
  · rfl
  · rfl
  · cases takeAssignment (Text.trimWhere Text.isBlank line) with
    | none => rfl
    | some assignment =>
        obtain ⟨name, rest⟩ := assignment
        by_cases hComment : rest.head? = some '#'
        · simp [hComment]
        · simp [hComment, Option.isSome_bind, isSome_readValue environment other]

/-- All that a line does: nothing, or it gives a value to its name. -/
theorem addLine_cases {line : List Char} (h : environment.addLine line = some after) :
    (assignedName? line = none ∧ after = environment) ∨
    ∃ name value, assignedName? line = some name ∧ after = environment.add name value := by
  unfold addLine at h
  rw [assignedName?]
  generalize Text.trimWhere Text.isBlank line = text at h ⊢
  split at h
  · exact .inl ⟨rfl, (Option.some.inj h).symm⟩
  · exact .inl ⟨rfl, (Option.some.inj h).symm⟩
  · obtain ⟨⟨name, rest⟩, hAssignment, hValue⟩ := Option.bind_eq_some_iff.mp h
    have hAdded : ∃ value, after = environment.add name value := by
      dsimp only at hValue
      split at hValue
      · exact ⟨_, (Option.some.inj hValue).symm⟩
      · obtain ⟨value, -, hAfter⟩ := Option.bind_eq_some_iff.mp hValue
        exact ⟨_, (Option.some.inj hAfter).symm⟩
    obtain ⟨value, rfl⟩ := hAdded
    exact .inr ⟨name, value, by rw [hAssignment]; rfl, rfl⟩

end Values

section Files

/-- The lines of a file, without the byte order mark that may stand before
them. -/
def linesOf? (text : String) : Option (List (List Char)) :=
  let chars := match text.toList with
    | '\uFEFF' :: rest => rest
    | chars => chars
  linesWithin (chars.length + 1) chars

theorem addFile_eq (environment : Environment) (text : String) :
    environment.addFile text = (linesOf? text).bind fun lines => lines.foldlM addLine environment :=
  rfl

/-- Lines that can be read can be read in every environment. -/
theorem isSome_addLines (environment other : Environment) (lines : List (List Char)) :
    (lines.foldlM addLine environment).isSome = (lines.foldlM addLine other).isSome := by
  induction lines generalizing environment other with
  | nil => rfl
  | cons line lines ih =>
      have hLine := isSome_addLine environment other line
      rw [List.foldlM_cons, List.foldlM_cons]
      cases hFirst : environment.addLine line with
      | none =>
          rw [hFirst] at hLine
          have hNone : other.addLine line = none :=
            Option.not_isSome_iff_eq_none.mp (by rw [← hLine]; exact Bool.false_ne_true)
          rw [hNone]
      | some next =>
          rw [hFirst] at hLine
          obtain ⟨otherNext, hNext⟩ := Option.isSome_iff_exists.mp hLine.symm
          rw [hNext]
          exact ih next otherNext

/-- Lines give values to their names in the order in which they stand. -/
theorem addLines_eq_some {lines : List (List Char)}
    (h : lines.foldlM addLine environment = some after) :
    ∃ added : List (String × String), added.map Prod.fst = lines.filterMap assignedName? ∧
      after = environment.addAll added := by
  induction lines generalizing environment with
  | nil => exact ⟨[], rfl, (Option.some.inj h).symm⟩
  | cons line lines ih =>
      rw [List.foldlM_cons] at h
      obtain ⟨next, hNext, hAfter⟩ := Option.bind_eq_some_iff.mp h
      obtain ⟨added, hNames, hAdded⟩ := ih hAfter
      obtain ⟨hNone, rfl⟩ | ⟨name, value, hName, rfl⟩ := addLine_cases hNext
      · exact ⟨added, by rw [hNames, List.filterMap_cons_none hNone], hAdded⟩
      · refine ⟨(name, value) :: added, ?_, hAdded⟩
        rw [List.filterMap_cons_some hName, List.map_cons, hNames]

/-- Whether a file can be read is a matter of its text alone. -/
theorem isSome_addFile (environment other : Environment) (text : String) :
    (environment.addFile text).isSome = (other.addFile text).isSome := by
  rw [addFile_eq, addFile_eq]
  cases linesOf? text with
  | none => rfl
  | some lines => exact isSome_addLines environment other lines

/-- A variable that is set keeps its value, and one that is not has that of its
first line. -/
theorem get?_addFile {text : String} (h : environment.addFile text = some after) :
    ∃ (lines : List (List Char)) (added : List (String × String)), linesOf? text = some lines ∧
      added.map Prod.fst = lines.filterMap assignedName? ∧
      ∀ name, after.get? name = (environment.get? name).or (added.lookup name) := by
  rw [addFile_eq] at h
  obtain ⟨lines, hLines, hAfter⟩ := Option.bind_eq_some_iff.mp h
  obtain ⟨added, hNames, rfl⟩ := addLines_eq_some hAfter
  exact ⟨lines, added, hLines, hNames, get?_addAll environment added⟩

end Files

end DocQuery.Environment
