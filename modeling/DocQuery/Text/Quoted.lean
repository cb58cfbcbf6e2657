/-!
Quoted text inside a query. A backslash makes the next character literal, except that `n`, `t` and
`r` after it stand for newline, tab and carriage return. Main statement: what `quote` writes,
`unquote` reads back, and it stops at the closing quote.
-/
namespace DocQuery.Text

/-- The character that a backslash and `c` stand for. -/
def unescape (c : Char) : Char :=
  if c = 'n' then '\n' else if c = 't' then '\t' else if c = 'r' then '\r' else c

/-- How a character is written between double quotes. -/
def escape (c : Char) : List Char :=
  if c = '"' ∨ c = '\\' then ['\\', c]
  else if c = '\n' then ['\\', 'n']
  else if c = '\t' then ['\\', 't']
  else if c = '\r' then ['\\', 'r']
  else [c]

def quote (text : String) : String :=
  String.ofList ('"' :: (text.toList.flatMap escape ++ ['"']))

/-- Reads up to the closing quote and gives the text before it and the input
after it. There is none if the input ends first. -/
def unquote (mark : Char) : List Char → Option (List Char × List Char)
  | [] => none
  | '\\' :: c :: rest =>
      (unquote mark rest).map fun (body, tail) => (unescape c :: body, tail)
  | c :: rest =>
      if c = mark then some ([], rest)
      else (unquote mark rest).map fun (body, tail) => (c :: body, tail)

/-- One escaped character is read back as the character itself. -/
theorem unquote_escape (c : Char) (rest : List Char) :
    unquote '"' (escape c ++ rest) =
      (unquote '"' rest).map fun (body, tail) => (c :: body, tail) := by
  by_cases hEscaped : c = '"' ∨ c = '\\' ∨ c = '\n' ∨ c = '\t' ∨ c = '\r'
  · rcases hEscaped with rfl | rfl | rfl | rfl | rfl <;> simp [escape, unquote, unescape]
  · simp only [not_or] at hEscaped
    obtain ⟨hQuote, hBackslash, hNewline, hTab, hReturn⟩ := hEscaped
    simp only [escape, hQuote, hBackslash, hNewline, hTab, hReturn, or_self, if_false,
      List.cons_append, List.nil_append]
    rw [unquote.eq_3 _ _ _ (by intro _ _ hSame; exact absurd hSame hBackslash)]
    simp [hQuote]

/-- An escaped text is read back up to the quote behind it, whatever follows. -/
theorem unquote_flatMap_escape (text rest : List Char) :
    unquote '"' (text.flatMap escape ++ '"' :: rest) = some (text, rest) := by
  induction text with
  | nil => simp [unquote]
  | cons c text ih => simp [List.flatMap_cons, List.append_assoc, unquote_escape, ih]

end DocQuery.Text
