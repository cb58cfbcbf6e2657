/-!
Words compared without regard to letter case. Lower case is needed only to tell whether a word is
one of a few ASCII words, so it folds exactly the letters whose lower case is an ASCII letter.
-/
namespace DocQuery.Text

/-- The lower case of a letter where that is an ASCII letter: of `A` to `Z` and
of the Kelvin sign. Every other character stays as it is. -/
def foldCase (c : Char) : Char :=
  if c = '\u212A' then 'k' else c.toLower

/-- A word in lower case, as keywords are compared. -/
def foldWord (word : String) : String :=
  String.ofList (word.toList.map foldCase)

/-- A word with its ASCII letters in lower case. -/
def lowerAscii (word : String) : String :=
  String.ofList (word.toList.map Char.toLower)

def sameWord (left right : String) : Bool :=
  lowerAscii left == lowerAscii right

end DocQuery.Text
