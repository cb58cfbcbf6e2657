/-!
A text as segments between the occurrences of one character. Joining the segments with the
character gives the text back, so nothing is lost.
-/
namespace DocQuery.Text

/-- The segments of a text between the occurrences of a character. There is
always one. -/
def split (mark : Char) (text : String) : List String :=
  (text.toList.splitOn mark).map String.ofList

def join (mark : Char) (segments : List String) : String :=
  String.intercalate (String.singleton mark) segments

theorem split_ne_nil (mark : Char) (text : String) : split mark text ≠ [] := by
  simp [split, List.splitOn_ne_nil]

/-- Splitting loses nothing. -/
theorem join_split (mark : Char) (text : String) : join mark (split mark text) = text := by
  apply String.toList_inj.mp
  simp [join, split, String.toList_intercalate, Function.comp_def, List.intercalate_splitOn]

/-- Segments without the mark are what their join is split into. -/
theorem split_join {mark : Char} {segments : List String} (hSegments : segments ≠ [])
    (hFree : ∀ segment ∈ segments, mark ∉ segment.toList) :
    split mark (join mark segments) = segments := by
  have hLists : (segments.map String.toList) ≠ [] := by simpa using hSegments
  simp only [split, join, String.toList_intercalate, String.toList_singleton]
  rw [List.splitOn_intercalate mark (by simpa using hFree) hLists]
  simp [Function.comp_def]

end DocQuery.Text
