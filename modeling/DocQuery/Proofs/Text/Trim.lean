import DocQuery.Path

/-! Texts without a mark at either end. Trimming gives such a text and leaves
one that already is. A path is its last name below the others, and without empty
names it has no slash at either end. -/
namespace DocQuery

namespace Text

/-- Neither the first nor the last character belongs to a class. -/
def TrimmedOf (drop : Char → Bool) (text : List Char) : Prop :=
  (∀ c ∈ text.head?, drop c = false) ∧ ∀ c ∈ text.getLast?, drop c = false

theorem head?_dropWhile {drop : Char → Bool} {text : List Char} {c : Char}
    (h : c ∈ (text.dropWhile drop).head?) : drop c = false := by
  have hNot := List.head?_dropWhile_not drop text
  rw [Option.mem_def.mp h] at hNot
  simpa using hNot

theorem dropWhile_eq_self {drop : Char → Bool} {text : List Char}
    (h : ∀ c ∈ text.head?, drop c = false) : text.dropWhile drop = text := by
  cases text with
  | nil => rfl
  | cons c rest => simp [h c rfl]

/-- Trimming leaves nothing to trim at either end. -/
theorem trimmedOf_trimWhere (drop : Char → Bool) (text : List Char) :
    TrimmedOf drop (trimWhere drop text) := by
  constructor
  · intro c hc
    obtain ⟨dropped, hDropped⟩ := List.dropWhile_suffix (l := (text.dropWhile drop).reverse) drop
    have hPrefix := congrArg List.reverse hDropped
    rw [List.reverse_append, List.reverse_reverse] at hPrefix
    refine @head?_dropWhile drop text c ?_
    rw [trimWhere, Option.mem_def] at hc
    rw [← hPrefix, List.head?_append, hc]
    rfl
  · intro c hc
    rw [trimWhere, List.getLast?_reverse] at hc
    exact head?_dropWhile hc

/-- A text with nothing to trim stays as it is. -/
theorem trimWhere_eq_self {drop : Char → Bool} {text : List Char} (h : TrimmedOf drop text) :
    trimWhere drop text = text := by
  rw [trimWhere, dropWhile_eq_self h.1, dropWhile_eq_self, List.reverse_reverse]
  intro c hc
  rw [List.head?_reverse] at hc
  exact h.2 c hc

/-- No segment holds the mark. -/
theorem not_mem_of_mem_split {mark : Char} {text segment : String} (h : segment ∈ split mark text) :
    mark ∉ segment.toList := by
  have hPieces (letters : List Char) : ∀ piece ∈ letters.splitOn mark, mark ∉ piece := by
    induction letters with
    | nil => simp
    | cons c rest ih =>
        obtain ⟨first, others, hSplit⟩ := List.exists_cons_of_ne_nil (List.splitOn_ne_nil mark rest)
        rw [hSplit] at ih
        obtain ⟨hFirst, hOthers⟩ := List.forall_mem_cons.mp ih
        rw [List.splitOn_cons_eq_if_modifyHead, hSplit]
        split
        · exact List.forall_mem_cons.mpr ⟨List.not_mem_nil, ih⟩
        · rename_i hOther
          have hMark : mark ≠ c := fun hSame => hOther (beq_iff_eq.mpr hSame.symm)
          refine List.forall_mem_cons.mpr ⟨?_, hOthers⟩
          exact List.not_mem_cons_of_ne_of_not_mem hMark hFirst
  obtain ⟨piece, hPiece, rfl⟩ := List.mem_map.mp h
  rw [String.toList_ofList]
  exact hPieces _ piece hPiece

end Text

namespace Path

/-- No slash at either end. -/
def Trimmed (path : String) : Prop :=
  path.toList.head? ≠ some '/' ∧ path.toList.getLast? ≠ some '/'

instance (path : String) : Decidable (Trimmed path) :=
  inferInstanceAs (Decidable (_ ∧ _))

theorem trimmed_iff (path : String) :
    Trimmed path ↔ Text.TrimmedOf (· == '/') path.toList := by
  simp only [Trimmed, Text.TrimmedOf, Option.mem_def, beq_eq_false_iff_ne]
  constructor
  · rintro ⟨hHead, hLast⟩
    exact ⟨fun c hc hEq => hHead (hEq ▸ hc), fun c hc hEq => hLast (hEq ▸ hc)⟩
  · rintro ⟨hHead, hLast⟩
    exact ⟨fun h => hHead _ h rfl, fun h => hLast _ h rfl⟩

/-- No slash is left at either end of a trimmed path. -/
theorem trimmed_trim (path : String) : Trimmed (trim path) := by
  rw [trimmed_iff, trim, Text.trimChar, String.toList_ofList]
  exact Text.trimmedOf_trimWhere _ _

/-- A path without slashes around it is not changed by trimming. -/
theorem trim_eq_self {path : String} (h : Trimmed path) : trim path = path := by
  rw [trim, Text.trimChar, Text.trimWhere_eq_self ((trimmed_iff path).mp h), String.ofList_toList]

theorem child_ne_empty (path name : String) : child path name ≠ "" := by
  intro hEmpty
  simpa [child] using congrArg String.toList hEmpty

/-- The names of a path below another come after the names of the other. -/
theorem segments_below (path below : String) :
    segments (child path below) = segments path ++ segments below := by
  have hText : (child path below).toList = path.toList ++ '/' :: below.toList := by
    simp [child]
  rw [segments, Text.split, hText, List.splitOn_append_cons_self, List.map_append]
  rfl

/-- A name without a slash is the only segment of itself. -/
theorem segments_eq_singleton {name : String} (hName : '/' ∉ name.toList) :
    segments name = [name] := by
  rw [segments, Text.split, List.splitOn_eq_singleton hName, List.map_singleton,
    String.ofList_toList]

/-- A child has one segment more than what it is a child of. -/
theorem segments_child (path : String) {name : String} (hName : '/' ∉ name.toList) :
    segments (child path name) = segments path ++ [name] := by
  rw [segments_below, segments_eq_singleton hName]

/-- A name below a path adds one to the depth. -/
theorem depth_child (path : String) {name : String} (hName : name ≠ "" ∧ '/' ∉ name.toList) :
    depth (child path name) = depth path + 1 := by
  simp [depth, segments_child path hName.2, hName.1]

/-- A child leads back to what it is a child of. -/
theorem parent?_child (path : String) {name : String} (hName : '/' ∉ name.toList) :
    parent? (child path name) = some path := by
  have hSome : segments path ≠ [] := Text.split_ne_nil '/' path
  have hLong : ¬(segments path ++ [name]).length ≤ 1 := by
    have hLength := List.length_pos_iff.mpr hSome
    simp only [List.length_append, List.length_singleton]
    omega
  rw [parent?, segments_child path hName, if_neg hLong, List.dropLast_concat, segments,
    Text.join_split]

/-- The names between slashes, empty ones apart. -/
def namesOf (text : List Char) : List (List Char) :=
  (text.splitOn '/').filter (· ≠ [])

/-- The depth of a path counts its names, wherever slashes meet. -/
theorem depth_eq (path : String) : depth path = (namesOf path.toList).length := by
  rw [depth, segments, Text.split, List.filter_map, List.length_map, namesOf]
  congr 1
  apply List.filter_congr
  intro name _
  simp

theorem namesOf_slash (text : List Char) : namesOf ('/' :: text) = namesOf text := by
  have hSplit := @List.splitOn_append_cons_self Char _ _ '/' [] text
  rw [List.nil_append] at hSplit
  rw [namesOf, hSplit, List.filter_append]
  rfl

/-- A slash at the end adds no name. -/
theorem namesOf_append_slash (text : List Char) : namesOf (text ++ ['/']) = namesOf text := by
  rw [namesOf, List.splitOn_append_cons_self, List.filter_append]
  exact List.append_nil _

/-- Slashes in front hold no names. -/
theorem namesOf_dropWhile (text : List Char) :
    namesOf (text.dropWhile (· == '/')) = namesOf text := by
  induction text with
  | nil => rfl
  | cons c rest ih =>
      by_cases hSlash : c = '/'
      · subst hSlash
        rw [List.dropWhile_cons_of_pos (by decide), ih, namesOf_slash]
      · rw [List.dropWhile_cons_of_neg (by simpa using hSlash)]

theorem namesOf_reverse_dropWhile (text : List Char) :
    namesOf (text.dropWhile (· == '/')).reverse = namesOf text.reverse := by
  induction text with
  | nil => rfl
  | cons c rest ih =>
      by_cases hSlash : c = '/'
      · subst hSlash
        rw [List.dropWhile_cons_of_pos (by decide), ih, List.reverse_cons, namesOf_append_slash]
      · rw [List.dropWhile_cons_of_neg (by simpa using hSlash)]

/-- Slashes around a path do not add to its depth. -/
theorem depth_trim (path : String) : depth (trim path) = depth path := by
  rw [depth_eq, depth_eq, trim, Text.trimChar, String.toList_ofList, Text.trimWhere,
    namesOf_reverse_dropWhile, List.reverse_reverse, namesOf_dropWhile]

/-- Collections and documents take turns along a path. -/
theorem isDocument_child_eq_not (path : String) {name : String}
    (hName : name ≠ "" ∧ '/' ∉ name.toList) :
    isDocument (child path name) = !isDocument path := by
  simp only [isDocument, depth_child path hName]
  rcases Nat.mod_two_eq_zero_or_one (depth path) with hEven | hOdd
  · have hNext : (depth path + 1) % 2 = 1 := by omega
    rw [hEven, hNext]
    rfl
  · have hNext : (depth path + 1) % 2 = 0 := by omega
    rw [hOdd, hNext]
    rfl

/-- Below a collection there are documents. -/
theorem isDocument_child {path name : String} (hPath : isDocument path = false)
    (hName : name ≠ "" ∧ '/' ∉ name.toList) : isDocument (child path name) = true := by
  rw [isDocument_child_eq_not path hName, hPath, Bool.not_false]

/-- A child by a proper name has no slash at either end. -/
theorem trimmed_child {path name : String} (hPath : path ≠ "" ∧ Trimmed path)
    (hName : name ≠ "" ∧ '/' ∉ name.toList) : Trimmed (child path name) := by
  have hText : (child path name).toList = path.toList ++ '/' :: name.toList := by
    simp [child]
  have hStart : path.toList ≠ [] := by simpa using hPath.1
  have hEnd : name.toList ≠ [] := by simpa using hName.1
  rw [Trimmed, hText, List.head?_append, List.getLast?_append, List.getLast?_cons,
    List.head?_eq_some_head hStart, List.getLast?_eq_some_getLast hEnd]
  constructor
  · rw [Option.some_or, ← List.head?_eq_some_head hStart]
    exact hPath.2.1
  · intro hSlash
    have hLast : name.toList.getLast hEnd = '/' := by simpa using hSlash
    exact hName.2 (hLast ▸ List.getLast_mem hEnd)

/-- A path is told by its segments. -/
theorem segments_inj {path other : String} (h : segments path = segments other) : path = other := by
  rw [← Text.join_split '/' path, ← Text.join_split '/' other]
  exact congrArg (Text.join '/') h

/-- A path of more than one name is its last name below the others. -/
theorem eq_child_of_segments {path : String} {front : List String} {last : String}
    (hSome : front ≠ []) (h : segments path = front ++ [last]) :
    path = child (Text.join '/' front) last := by
  have hFree : ∀ name ∈ front ++ [last], '/' ∉ name.toList := fun name hName =>
    Text.not_mem_of_mem_split (h ▸ hName)
  have hFront : segments (Text.join '/' front) = front :=
    Text.split_join hSome fun name hName => hFree name (List.mem_append_left _ hName)
  apply segments_inj
  rw [segments_child _ (hFree last (by simp)), hFront, h]

/-- The parent of a path is what it is a name below. -/
theorem parent?_eq_some_iff {path parent : String} :
    parent? path = some parent ↔ ∃ name, '/' ∉ name.toList ∧ path = child parent name := by
  constructor
  · intro h
    rw [parent?] at h
    split at h
    · cases h
    · rename_i hLong
      obtain rfl := Option.some.inj h
      have hSome : segments path ≠ [] := Text.split_ne_nil '/' path
      have hSplit := List.dropLast_concat_getLast hSome
      have hFront : (segments path).dropLast ≠ [] := by
        intro hEmpty
        have hLength := congrArg List.length hEmpty
        rw [List.length_dropLast, List.length_nil] at hLength
        omega
      exact ⟨_, Text.not_mem_of_mem_split (List.getLast_mem hSome),
        eq_child_of_segments hFront hSplit.symm⟩
  · rintro ⟨name, hName, rfl⟩
    exact parent?_child parent hName

/-- The name of a path is the whole path or what is behind its last slash. -/
theorem name_eq_iff {path name : String} :
    Path.name path = name ↔
      '/' ∉ name.toList ∧ (path = name ∨ ∃ above, path = child above name) := by
  have hSome : segments path ≠ [] := Text.split_ne_nil '/' path
  constructor
  · rintro rfl
    refine ⟨Text.not_mem_of_mem_split (List.getLast_mem hSome), ?_⟩
    have hSplit := List.dropLast_concat_getLast hSome
    by_cases hFront : (segments path).dropLast = []
    · left
      rw [hFront, List.nil_append] at hSplit
      calc path = Text.join '/' (segments path) := (Text.join_split '/' path).symm
        _ = Text.join '/' [Path.name path] := congrArg _ hSplit.symm
        _ = Path.name path := by simp [Text.join]
    · exact Or.inr ⟨_, eq_child_of_segments hFront hSplit.symm⟩
  · rintro ⟨hName, rfl | ⟨above, rfl⟩⟩
    · simp [Path.name, segments_eq_singleton hName]
    · simp [Path.name, segments_child above hName]

/-- The first name of a path is the whole path or what is before its first
slash. -/
theorem head?_segments_eq_some_iff {path name : String} :
    (segments path).head? = some name ↔
      '/' ∉ name.toList ∧ (path = name ∨ ∃ below, path = child name below) := by
  constructor
  · intro h
    obtain ⟨others, hNames⟩ := List.head?_eq_some_iff.mp h
    have hFree : ∀ other ∈ name :: others, '/' ∉ other.toList := fun other hOther =>
      Text.not_mem_of_mem_split (hNames ▸ hOther)
    have hName := hFree name List.mem_cons_self
    refine ⟨hName, ?_⟩
    by_cases hOthers : others = []
    · left
      apply segments_inj
      rw [hNames, hOthers, segments_eq_singleton hName]
    · right
      refine ⟨Text.join '/' others, segments_inj ?_⟩
      have hBelow : segments (Text.join '/' others) = others :=
        Text.split_join hOthers fun other hOther => hFree other (List.mem_cons_of_mem _ hOther)
      rw [segments_below, hBelow, segments_eq_singleton hName, hNames]
      rfl
  · rintro ⟨hName, rfl | ⟨below, rfl⟩⟩
    · simp [segments_eq_singleton hName]
    · simp [segments_below, segments_eq_singleton hName]

/-- A path without empty names has no slash at either end. -/
theorem trimmed_of_names {path : String} (h : "" ∉ segments path) : Trimmed path := by
  constructor
  · intro hHead
    obtain ⟨rest, hText⟩ := List.head?_eq_some_iff.mp hHead
    apply h
    have hSplit := @List.splitOn_append_cons_self Char _ _ '/' [] rest
    rw [List.nil_append] at hSplit
    rw [segments, Text.split, hText, hSplit]
    simp
  · intro hLast
    obtain ⟨front, hText⟩ := List.getLast?_eq_some_iff.mp hLast
    apply h
    rw [segments, Text.split, hText, List.splitOn_append_cons_self]
    simp

end Path

end DocQuery
