/-!
White space: the characters with the Unicode property White_Space, which separate the words of a
query and make a setting blank.
-/
namespace DocQuery.Text

/-- A character with the property White_Space. -/
def isBlank (c : Char) : Bool :=
  let code := c.toNat
  (9 ≤ code && code ≤ 13) || code == 0x20 || code == 0x85 || code == 0xA0 || code == 0x1680 ||
    (0x2000 ≤ code && code ≤ 0x200A) || code == 0x2028 || code == 0x2029 || code == 0x202F ||
    code == 0x205F || code == 0x3000

/-- The text without the characters of a class at either end. -/
def trimWhere (drop : Char → Bool) (text : List Char) : List Char :=
  ((text.dropWhile drop).reverse.dropWhile drop).reverse

def trim (text : String) : String :=
  String.ofList (trimWhere isBlank text.toList)

/-- The text without any of one character at either end. -/
def trimChar (mark : Char) (text : String) : String :=
  String.ofList (trimWhere (· == mark) text.toList)

/-- A text of white space alone, or of nothing. -/
def isBlankText (text : String) : Bool :=
  text.toList.all isBlank

end DocQuery.Text
