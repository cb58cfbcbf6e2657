import DocQuery.Grammar.Error
import DocQuery.Text.Blank
import DocQuery.Text.Letter
import DocQuery.Text.Quoted
/-!
A text as tokens. Between tokens there may be white space and comments, which run from `--` to the
end of the line. A token is the longest one that begins where it begins. Each reader below gives a
token together with the text it takes and the text after it, and these two make up what it read.
-/
namespace DocQuery.Grammar

/-- A token read from the front of a text. -/
structure Reading where
  token : Token
  taken : List Char
  rest : List Char

/-- The white space and comments in front of a text, and the text after them.
Inside a comment every character up to the end of the line belongs to it. -/
def takeLayout (inComment : Bool) : List Char → List Char × List Char
  | [] => ([], [])
  | c :: rest =>
      let commentStarts := c == '-' && rest.head? == some '-'
      if inComment || Text.isBlank c || commentStarts then
        let staysInComment := (inComment && c != '\n') || (!inComment && commentStarts)
        let (layout, after) := takeLayout staysInComment rest
        (c :: layout, after)
      else ([], c :: rest)

/-- The fraction in front of a text: a point with at least one digit after
it. -/
def takeFraction : List Char → List Char × List Char
  | '.' :: rest =>
      let digits := rest.takeWhile Char.isDigit
      if digits = [] then ([], '.' :: rest) else ('.' :: digits, rest.dropWhile Char.isDigit)
  | text => ([], text)

/-- The exponent in front of a text: the letter `e`, an optional sign and at
least one digit. -/
def takeExponent : List Char → List Char × List Char
  | [] => ([], [])
  | mark :: rest =>
      let sign := match rest with
        | c :: _ => if c = '+' ∨ c = '-' then [c] else []
        | [] => []
      let afterSign := rest.drop sign.length
      let digits := afterSign.takeWhile Char.isDigit
      if (mark = 'e' ∨ mark = 'E') ∧ digits ≠ [] then
        (mark :: (sign ++ digits), afterSign.dropWhile Char.isDigit)
      else ([], mark :: rest)

/-- A number keeps its digits as written, but its exponent always with a small
`e`. -/
def readNumber (text : List Char) : Reading :=
  let whole := text.takeWhile Char.isDigit
  let (fraction, rest) := takeFraction (text.dropWhile Char.isDigit)
  let (exponent, rest) := takeExponent rest
  let written := whole ++ fraction
  { token := .number (String.ofList (written ++ exponent.map fun c => if c = 'E' then 'e' else c))
    taken := written ++ exponent
    rest }

/-- The rest of a name: name characters, and points that have a name character
after them. -/
def takeName : List Char → List Char × List Char
  | [] => ([], [])
  | c :: rest =>
      let pathGoesOn := c == '.' && rest.head?.any Text.isNameChar
      if Text.isNameChar c || pathGoesOn then
        let (name, after) := takeName rest
        (c :: name, after)
      else ([], c :: rest)

/-- A name is a keyword if it spells one and an identifier otherwise. -/
def readName (first : Char) (text : List Char) : Reading :=
  let (more, rest) := takeName text
  let name := String.ofList (first :: more)
  { token := match Keyword.ofWord? name with
      | some keyword => .keyword keyword
      | none => .identifier name
    taken := first :: more
    rest }

/-- A text in quotes, or none if the closing quote is missing. -/
def readString (quote : Char) (text : List Char) : Option Reading :=
  (Text.unquote quote text).map fun (body, rest) =>
    { token := .string (String.ofList body)
      taken := quote :: text.take (text.length - rest.length)
      rest }

/-- The longest mark in front of a text. -/
def readMark : List Char → Option Reading
  | '=' :: '=' :: rest => some ⟨.mark .equal, ['=', '='], rest⟩
  | '=' :: rest => some ⟨.mark .assign, ['='], rest⟩
  | '!' :: '=' :: rest => some ⟨.mark .notEqual, ['!', '='], rest⟩
  | '<' :: '=' :: rest => some ⟨.mark .lessThanOrEqual, ['<', '='], rest⟩
  | '<' :: rest => some ⟨.mark .lessThan, ['<'], rest⟩
  | '>' :: '=' :: rest => some ⟨.mark .greaterThanOrEqual, ['>', '='], rest⟩
  | '>' :: rest => some ⟨.mark .greaterThan, ['>'], rest⟩
  | '*' :: rest => some ⟨.mark .star, ['*'], rest⟩
  | '^' :: rest => some ⟨.mark .caret, ['^'], rest⟩
  | ',' :: rest => some ⟨.mark .comma, [','], rest⟩
  | '-' :: rest => some ⟨.mark .minus, ['-'], rest⟩
  | ';' :: rest => some ⟨.mark .semicolon, [';'], rest⟩
  | '[' :: rest => some ⟨.mark .leftBracket, ['['], rest⟩
  | ']' :: rest => some ⟨.mark .rightBracket, [']'], rest⟩
  | '(' :: rest => some ⟨.mark .leftParen, ['('], rest⟩
  | ')' :: rest => some ⟨.mark .rightParen, [')'], rest⟩
  | _ => none

/-- What keeps a text from beginning with a token, and the fragment to quote. -/
structure Refusal where
  cause : SyntaxError.Cause
  fragment : Option String

/-- The token in front of a text that begins with a character. -/
def readToken (first : Char) (rest : List Char) : Except Refusal Reading :=
  if first.isDigit then .ok (readNumber (first :: rest))
  else if first = '"' ∨ first = '\'' then
    match readString first rest with
    | some reading => .ok reading
    | none => .error ⟨.unterminatedString, none⟩
  else if Text.isNameStart first then .ok (readName first rest)
  else match readMark (first :: rest) with
    | some reading => .ok reading
    | none =>
        if first = '!' then .error ⟨.loneExclamationMark, some "!"⟩
        else .error ⟨.unexpectedCharacter first, some (String.singleton first)⟩

/-- The tokens of a text in order, and the place where it ends. -/
structure Tokens where
  lexemes : List Lexeme
  finish : Position

/-- The tokens with the end of the text as the last one. -/
def Tokens.toList (tokens : Tokens) : List Lexeme :=
  tokens.lexemes ++ [⟨.endOfInput, tokens.finish, ""⟩]

/-- Reads the tokens of a text that begins at a place. The budget bounds their
number. -/
def scanWithin : Nat → Position → List Char → Except SyntaxError Tokens
  | 0, position, _ => .ok ⟨[], position⟩
  | budget + 1, position, text =>
      let (layout, rest) := takeLayout false text
      let position := position.after layout
      match rest with
      | [] => .ok ⟨[], position⟩
      | first :: rest =>
          match readToken first rest with
          | .error refusal => .error ⟨refusal.cause, position, refusal.fragment⟩
          | .ok reading => do
              let more ← scanWithin budget (position.after reading.taken) reading.rest
              return ⟨⟨reading.token, position, String.ofList reading.taken⟩ :: more.lexemes,
                more.finish⟩

/-- The tokens of a text. Each takes at least one character, so a budget of one
more than the characters is never used up. -/
def scan (text : String) : Except SyntaxError Tokens :=
  scanWithin (text.toList.length + 1) Position.start text.toList

end DocQuery.Grammar
