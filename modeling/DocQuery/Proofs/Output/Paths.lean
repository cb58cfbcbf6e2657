import DocQuery.Output.FileTree
import DocQuery.Proofs.Text.Trim

/-! Where the path of an output file leads. A relative path stays below the
output folder, and one that starts with a tilde stays below the home folder,
unless what follows the tilde and its slash is itself absolute: that path stands
alone and leads wherever it says. -/
namespace DocQuery.FilePath

/-- The parts of a path that are told apart: the root if it starts there, a
point if it starts with one, and the names, without those that lead nowhere
else. -/
def components (path : String) : List String :=
  if isAbsolute path then "/" :: FileTree.namesOf path
  else if (Text.split '/' path).head? = some "." then "." :: FileTree.namesOf path
  else FileTree.namesOf path

/-- A path starts with the components of a folder. -/
def Below (folder path : String) : Prop :=
  components folder <+: components path

instance (folder path : String) : Decidable (Below folder path) :=
  inferInstanceAs (Decidable (_ <+: _))

section Join

variable {left right : String}

/-- An absolute path stands alone. -/
theorem join_of_isAbsolute (hRight : isAbsolute right = true) : join left right = right :=
  if_pos hRight

/-- A relative path comes after the whole of the path it is joined to. -/
theorem join_cases (hRight : isAbsolute right = false) :
    (∃ front, left = front ++ "/" ∧ join left right = Path.child front right) ∨
      left = "" ∨ join left right = Path.child left right := by
  rw [join, if_neg (Bool.eq_false_iff.mp hRight)]
  split
  · rename_i hSlash
    rcases List.eq_nil_or_concat left.toList with hEmpty | ⟨front, last, hLeft⟩
    · exact .inr (.inl (by simpa using hEmpty))
    · rw [hLeft, List.concat_eq_append, List.getLast?_append] at hSlash
      obtain rfl : last = '/' := by simpa using hSlash
      have hText : left = String.ofList front ++ "/" := by
        apply String.toList_inj.mp
        simp [hLeft]
      exact .inl ⟨String.ofList front, hText, by rw [hText, Path.child]⟩
  · exact .inr (.inr rfl)

/-- The segments of a joined path are those of both, but for the empty one after
a slash that ends the first. -/
theorem split_join_paths (hLeft : left ≠ "") (hRight : isAbsolute right = false) :
    ∃ front ≠ [], (Text.split '/' left = front ∨ Text.split '/' left = front ++ [""]) ∧
      Text.split '/' (join left right) = front ++ Text.split '/' right := by
  obtain ⟨front, hFront, hJoin⟩ | hEmpty | hJoin := @join_cases left right hRight
  · refine ⟨_, Text.split_ne_nil '/' front, .inr ?_, ?_⟩
    · have hSplit := Path.segments_below front ""
      rwa [Path.child, String.append_empty, ← hFront] at hSplit
    · rw [hJoin]
      exact Path.segments_below front right
  · exact absurd hEmpty hLeft
  · refine ⟨_, Text.split_ne_nil '/' left, .inl rfl, ?_⟩
    rw [hJoin]
    exact Path.segments_below left right

/-- A path below a folder is absolute exactly if the folder is. -/
theorem isAbsolute_join (hLeft : left ≠ "") (hRight : isAbsolute right = false) :
    isAbsolute (join left right) = isAbsolute left := by
  obtain ⟨c, rest, hText⟩ := List.exists_cons_of_ne_nil (l := left.toList) (by simpa using hLeft)
  rw [join, if_neg (Bool.eq_false_iff.mp hRight)]
  split <;> simp [isAbsolute, hText]

/-- The components of a joined path are those of the first path and then the
names of the second. -/
theorem components_join (hLeft : left ≠ "") (hRight : isAbsolute right = false) :
    components (join left right) = components left ++ FileTree.namesOf right := by
  obtain ⟨front, hSome, hSplit, hJoin⟩ := split_join_paths hLeft hRight
  have hStart : (Text.split '/' (join left right)).head? = (Text.split '/' left).head? := by
    obtain ⟨first, rest, rfl⟩ := List.exists_cons_of_ne_nil hSome
    rw [hJoin]
    rcases hSplit with hSplit | hSplit <;> rw [hSplit] <;> rfl
  have hNames : FileTree.namesOf (join left right) =
      FileTree.namesOf left ++ FileTree.namesOf right := by
    rw [FileTree.namesOf, hJoin, List.filter_append]
    rcases hSplit with hSplit | hSplit
    · rw [← hSplit, FileTree.namesOf, FileTree.namesOf]
    · rw [FileTree.namesOf, hSplit, List.filter_append]
      simp [FileTree.staysThere, FileTree.namesOf]
  rw [components, components, isAbsolute_join hLeft hRight, hStart, hNames]
  split
  · rfl
  · split <;> rfl

/-- A relative path leads below the folder it is joined to. -/
theorem below_join (hRight : isAbsolute right = false) : Below left (join left right) := by
  by_cases hLeft : left = ""
  · subst hLeft
    exact List.nil_prefix
  · rw [Below, components_join hLeft hRight]
    exact List.prefix_append _ _

/-- A path taken from a folder leads below it, unless it is absolute and leads
elsewhere. -/
theorem below_join_iff : Below left (join left right) ↔
    (isAbsolute right = true → Below left right) := by
  cases hRight : isAbsolute right with
  | true => simp [join_of_isAbsolute hRight]
  | false => simp [below_join hRight]

end Join

/-- Where a path leads, by the form it is written in. -/
structure LeadsByForm (base home path : String) : Prop where
  /-- A path without anything but white space is the only one that is
  refused. -/
  refused : (∃ fault, resolve base (some home) path = .error fault) ↔ Text.isBlankText path = true
  absolute : isAbsolute path = true → resolve base (some home) path = .ok path
  tilde : path = "~" → resolve base (some home) path = .ok home
  /-- What follows the tilde leads below the home folder, unless it is absolute
  and leads elsewhere by itself. -/
  belowHome : ∀ rest, path = "~/" ++ rest → ∃ found, resolve base (some home) path = .ok found ∧
    (isAbsolute rest = true → found = rest) ∧
    (isAbsolute rest = false → components found = components home ++ FileTree.namesOf rest) ∧
    (Below home found ↔ (isAbsolute rest = true → Below home rest))
  relative : Text.isBlankText path = false → isAbsolute path = false → path ≠ "~" →
    (∀ rest, path ≠ "~/" ++ rest) →
      ∃ found, resolve base (some home) path = .ok found ∧ Below base found

section Resolve

variable {base home : String}

theorem ne_empty_of_isAbsolute {path : String} (h : isAbsolute path = true) : path ≠ "" := by
  rintro rfl
  simp [isAbsolute] at h

/-- A path stays absolute with anything behind it. -/
theorem isAbsolute_join_of_left {left : String} (h : isAbsolute left = true) (right : String) :
    isAbsolute (join left right) = true := by
  cases hRight : isAbsolute right with
  | true => rw [join_of_isAbsolute hRight, hRight]
  | false => rw [isAbsolute_join (ne_empty_of_isAbsolute h) hRight, h]

/-- A blank path leads nowhere. -/
theorem resolve_of_blank {path : String} (h : Text.isBlankText path = true) :
    resolve base (some home) path = .error (.unavailable .noPath) :=
  if_pos h

/-- A tilde alone is the home folder. -/
theorem resolve_home (hHome : isAbsolute home = true) :
    resolve base (some home) "~" = .ok home := by
  have hBlank : ¬ Text.isBlankText "~" = true := by decide
  rw [resolve, if_neg hBlank]
  exact congrArg Except.ok (if_pos hHome)

/-- What follows a tilde and a slash is taken from the home folder. -/
theorem resolve_belowHome (hHome : isAbsolute home = true) (rest : String) :
    resolve base (some home) ("~/" ++ rest) = .ok (join home rest) := by
  have hText : ("~/" ++ rest).toList = '~' :: '/' :: rest.toList := by
    simp
  have hBlank : ¬ Text.isBlankText ("~/" ++ rest) = true := by
    rw [Text.isBlankText, hText, List.all_cons]
    simp [Text.isBlank]
  rw [resolve, if_neg hBlank, hText]
  simp only [String.ofList_toList, isAbsolute_join_of_left hHome rest, if_true]

/-- Without a tilde in front, a path is taken from the output folder. -/
theorem resolve_relative {path : String} (hBlank : Text.isBlankText path = false)
    (hTilde : path ≠ "~") (hBelow : ∀ rest, path ≠ "~/" ++ rest) :
    resolve base (some home) path =
      .ok (if isAbsolute path then path else join base path) := by
  rw [resolve, if_neg (Bool.eq_false_iff.mp hBlank)]
  split
  · rename_i hText
    exact absurd (String.toList_inj.mp hText) hTilde
  · rename_i rest hText
    refine absurd (String.toList_inj.mp ?_) (hBelow (String.ofList rest))
    simp [hText]
  · rfl

/-- Every path but a blank one is found, and it stays where its form says:
an absolute path where it is, the others below the home folder or the output
folder. Only an absolute path behind a tilde and a slash leaves the home
folder. -/
theorem resolve_by_form (hHome : isAbsolute home = true) (path : String) :
    LeadsByForm base home path := by
  have hFound (rest : String) := @resolve_belowHome base home hHome rest
  refine ⟨⟨?refuses, ?blank⟩, ?absolute, ?tilde, ?belowHome, ?relative⟩
  case refuses =>
    rintro ⟨fault, hFault⟩
    refine (Bool.eq_false_or_eq_true _).resolve_right fun hBlank => ?_
    by_cases hTilde : path = "~"
    · rw [hTilde, resolve_home hHome] at hFault
      cases hFault
    · by_cases hBelow : ∃ rest, path = "~/" ++ rest
      · obtain ⟨rest, rfl⟩ := hBelow
        rw [hFound rest] at hFault
        cases hFault
      · rw [resolve_relative hBlank hTilde (not_exists.mp hBelow)] at hFault
        cases hFault
  case blank =>
    exact fun hBlank => ⟨_, resolve_of_blank hBlank⟩
  case absolute =>
    intro hAbsolute
    obtain ⟨text, hText⟩ : ∃ text, path.toList = '/' :: text := by
      simpa [isAbsolute, List.head?_eq_some_iff] using hAbsolute
    have hBlank : Text.isBlankText path = false := by
      rw [Text.isBlankText, hText, List.all_cons]
      simp [Text.isBlank]
    rw [resolve_relative hBlank, if_pos hAbsolute]
    · rintro rfl
      simp at hText
    · rintro rest rfl
      simp at hText
  case tilde =>
    rintro rfl
    exact resolve_home hHome
  case belowHome =>
    rintro rest rfl
    exact ⟨_, hFound rest, join_of_isAbsolute,
      components_join (ne_empty_of_isAbsolute hHome), below_join_iff⟩
  case relative =>
    intro hBlank hRelative hTilde hBelow
    refine ⟨_, resolve_relative hBlank hTilde hBelow, ?_⟩
    rw [if_neg (Bool.eq_false_iff.mp hRelative)]
    exact below_join hRelative

/-- A second slash behind the tilde makes the rest an absolute path, which
replaces the home. -/
theorem resolve_by_form_secondSlash :
    isAbsolute "/home/ann" = true ∧ LeadsByForm "/data/out" "/home/ann" "~//etc/x" :=
  ⟨by decide, resolve_by_form (by decide) "~//etc/x"⟩

end Resolve

/-- A path that starts with a tilde and a slash can lead out of the home
folder. -/
theorem not_always_below_home :
    ¬ ∀ base home path : String, isAbsolute home = true → (∃ rest, path = "~/" ++ rest) →
      ∃ found, resolve base (some home) path = .ok found ∧ Below home found := by
  intro h
  obtain ⟨found, hFound, hBelow⟩ := h "/data/out" "/home/ann" "~//etc/x" (by decide) ⟨"/etc/x", rfl⟩
  have hLeaves : resolve "/data/out" (some "/home/ann") "~//etc/x" = .ok "/etc/x" :=
    resolve_belowHome (by decide) "/etc/x"
  obtain rfl := Except.ok.inj (hLeaves.symm.trans hFound)
  revert hBelow
  decide

end DocQuery.FilePath
