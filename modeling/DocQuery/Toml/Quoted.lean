import DocQuery.Toml.Scalar
/-!
Quoted texts of a TOML document. Between double quotes there are escapes, between single quotes
everything stands for itself, and between three quotes a text may have several lines. Each reader
gives the text and what follows the closing quotes.
-/
namespace DocQuery.Toml

abbrev QuotedText := Option (List Char × List Char)

/-- A character that may stand in a line: no control character except the
tab. -/
def isLineChar (c : Char) : Bool :=
  c == '\t' || (0x20 ≤ c.toNat && c.toNat != 0x7F)

def shortEscape? (c : Char) : Option Char :=
  if c = 'b' then some '\x08'
  else if c = 't' then some '\t'
  else if c = 'n' then some '\n'
  else if c = 'f' then some '\x0c'
  else if c = 'r' then some '\r'
  else if c = '"' ∨ c = '\\' then some c
  else none

def codePoint? (digits : List Char) : Option Char :=
  let code := digitsValue 16 digits
  if hValid : code.isValidChar then
    if digits.all isHexDigit then some (Char.ofNatAux code hValid) else none
  else none

/-- The character of the escape in front of a text, and what follows it. -/
def escape? : List Char → QuotedText
  | 'u' :: rest =>
      if 4 ≤ rest.length then (codePoint? (rest.take 4)).map fun c => ([c], rest.drop 4) else none
  | 'U' :: rest =>
      if 8 ≤ rest.length then (codePoint? (rest.take 8)).map fun c => ([c], rest.drop 8) else none
  | c :: rest => (shortEscape? c).map fun plain => ([plain], rest)
  | [] => none

/-- What follows white space and the ends of lines. -/
def skipLines : List Char → List Char
  | '\r' :: '\n' :: rest => skipLines rest
  | '\n' :: rest => skipLines rest
  | ' ' :: rest => skipLines rest
  | '\t' :: rest => skipLines rest
  | rest => rest

/-- What follows the end of a line after white space, and all white space and
further ends of lines there. -/
def joinLines? (text : List Char) : Option (List Char) :=
  match text.dropWhile fun c => c == ' ' || c == '\t' with
  | '\r' :: '\n' :: rest => some (skipLines rest)
  | '\n' :: rest => some (skipLines rest)
  | _ => none

/-- What follows the end of a line in front of a text, or the text itself. -/
def skipFirstLineEnd : List Char → List Char
  | '\r' :: '\n' :: rest => rest
  | '\n' :: rest => rest
  | rest => rest

/-- The rest of a text on one line up to its closing quote. The budget bounds
its characters. -/
def readLineText (quote : Char) : Nat → List Char → QuotedText
  | budget + 1, c :: rest =>
      if c = quote then some ([], rest)
      else if c = '\\' ∧ quote = '"' then do
        let (escaped, rest) ← escape? rest
        let (text, rest) ← readLineText quote budget rest
        return (escaped ++ text, rest)
      else if isLineChar c then do
        let (text, rest) ← readLineText quote budget rest
        return (c :: text, rest)
      else none
  | _, _ => none

/-- The number of times that a character stands in front of a text, at most
five. -/
def quoteRun (quote : Char) (text : List Char) : Nat :=
  ((text.take 5).takeWhile (· == quote)).length

/-- The rest of a text on several lines up to its three closing quotes, in front
of which there may be two more that belong to it. The budget bounds its
characters. -/
def readLinesText (quote : Char) : Nat → List Char → QuotedText
  | 0, _ => none
  | budget + 1, text =>
      let run := quoteRun quote text
      if 3 ≤ run then some (List.replicate (run - 3) quote, text.drop run)
      else match text with
        | [] => none
        | '\r' :: '\n' :: rest => do
            let (text, rest) ← readLinesText quote budget rest
            return ('\n' :: text, rest)
        | c :: rest =>
            if c = '\\' ∧ quote = '"' then
              match joinLines? rest with
              | some rest => readLinesText quote budget rest
              | none => do
                  let (escaped, rest) ← escape? rest
                  let (text, rest) ← readLinesText quote budget rest
                  return (escaped ++ text, rest)
            else if isLineChar c || c == '\n' then do
              let (text, rest) ← readLinesText quote budget rest
              return (c :: text, rest)
            else none

def readQuoted (quote : Char) (text : List Char) : QuotedText :=
  match text with
  | c₁ :: c₂ :: rest =>
      if c₁ = quote ∧ c₂ = quote then
        readLinesText quote (rest.length + 1) (skipFirstLineEnd rest)
      else readLineText quote (text.length + 1) text
  | _ => readLineText quote (text.length + 1) text

end DocQuery.Toml
