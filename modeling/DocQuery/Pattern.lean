/-!
Patterns of `like`. A percent sign stands for any run of characters other than newlines, every other
character for itself, and a pattern matches whole texts. Matching goes through the pattern once and
keeps for every place of the text whether the rest of the pattern matches the rest of the text, so
it never tries a place twice.
-/
namespace DocQuery.Pattern

/-- The longest pattern that is accepted, in characters. -/
def maxLength : Nat :=
  1000

/-- From where the rest of a pattern matches, where it matches with a percent
sign before it: from a place where it matches itself, and from one place earlier
if the character there is no newline. -/
def afterGap : List Char → List Bool → List Bool
  | _, [] => []
  | [], places => places
  | c :: text, here :: later =>
      let later := afterGap text later
      (here || (c != '\n' && later.headD false)) :: later

/-- From where the rest of a pattern matches, where it matches with a character
before it: from one place earlier if that character is there. -/
def afterChar (wanted : Char) : List Char → List Bool → List Bool
  | [], _ => [false]
  | c :: text, places =>
      (c == wanted && places.tail.headD false) :: afterChar wanted text places.tail

/-- For every place of the text, its end included, whether the pattern matches
from there on. -/
def places (text : List Char) : List Char → List Bool
  | [] => text.map (fun _ => false) ++ [true]
  | c :: pattern =>
      if c = '%' then afterGap text (places text pattern)
      else afterChar c text (places text pattern)

def accepts (pattern text : String) : Bool :=
  (places text.toList pattern.toList).headD false

def fits (pattern : String) : Bool :=
  pattern.toList.length ≤ maxLength

end DocQuery.Pattern
