import DocQuery.Number.Double
import DocQuery.Toml.Table
/-!
Values of a TOML document that are written without quotes and brackets: booleans, integers, floats
and moments in time. Each is recognised as a whole, from its first character to its last one.
-/
namespace DocQuery.Toml

/-- The characters that such a value is made of, apart from the space inside a
moment. -/
def isScalarChar (c : Char) : Bool :=
  c.isAlphanum || c == '+' || c == '-' || c == '_' || c == '.' || c == ':'

/-- Digits with at most one underscore between two of them. -/
def isDigits (isDigit : Char → Bool) : List Char → Bool
  | [] => false
  | [c] => isDigit c
  | c :: '_' :: rest => isDigit c && isDigits isDigit rest
  | c :: rest => isDigit c && isDigits isDigit rest

/-- A whole number without sign; only the number zero begins with a zero. -/
def isWhole (text : List Char) : Bool :=
  isDigits Char.isDigit text && (text.length == 1 || text.head? != some '0')

/-- A text without its sign, and whether that is a minus. -/
def takeSign : List Char → Bool × List Char
  | '-' :: rest => (true, rest)
  | '+' :: rest => (false, rest)
  | rest => (false, rest)

def isHexDigit (c : Char) : Bool :=
  c.isDigit || ('a' ≤ c && c ≤ 'f') || ('A' ≤ c && c ≤ 'F')

def digitValue (c : Char) : Nat :=
  if c.isDigit then c.toNat - '0'.toNat else c.toLower.toNat - 'a'.toNat + 10

/-- The value of digits to a base, underscores apart. -/
def digitsValue (base : Nat) (text : List Char) : Nat :=
  (text.filter (· != '_')).foldl (fun n c => n * base + digitValue c) 0

def integerInRange (n : Int) : Option Node :=
  if -9223372036854775808 ≤ n ∧ n ≤ 9223372036854775807 then some (.integer n) else none

/-- Reads an integer, which is decimal unless its start names another base. -/
def integer? : List Char → Option Node
  | '0' :: 'x' :: digits =>
      if isDigits isHexDigit digits then integerInRange (digitsValue 16 digits) else none
  | '0' :: 'o' :: digits =>
      if isDigits (fun c => '0' ≤ c && c ≤ '7') digits then integerInRange (digitsValue 8 digits)
      else none
  | '0' :: 'b' :: digits =>
      if isDigits (fun c => c == '0' || c == '1') digits then integerInRange (digitsValue 2 digits)
      else none
  | text =>
      let (negative, digits) := takeSign text
      let size : Int := digitsValue 10 digits
      if isWhole digits then integerInRange (if negative then -size else size) else none

def isExponent : List Char → Bool
  | mark :: rest => (mark == 'e' || mark == 'E') && isDigits Char.isDigit (takeSign rest).2
  | [] => false

def isRunChar (c : Char) : Bool :=
  c.isDigit || c == '_'

/-- What follows the whole part of a float: a fraction, an exponent or both. -/
def isFloatTail : List Char → Bool
  | '.' :: rest =>
      let after := rest.dropWhile isRunChar
      isDigits Char.isDigit (rest.takeWhile isRunChar) && (after.isEmpty || isExponent after)
  | rest => isExponent rest

/-- Whether a text is a float. A positive one may not be too large for a
double. -/
def isFloat (text : List Char) : Bool :=
  let (negative, unsigned) := takeSign text
  let tooLarge := match Decimal.ofText? (unsigned.filter (· != '_')) with
    | some size => (Double.ofDecimal? negative size).isNone
    | none => false
  unsigned == ['i', 'n', 'f'] || unsigned == ['n', 'a', 'n'] ||
    (isWhole (unsigned.takeWhile isRunChar) && isFloatTail (unsigned.dropWhile isRunChar) &&
      (negative || !tooLarge))

def twoDigits? (tens ones : Char) : Option Nat :=
  if tens.isDigit && ones.isDigit then some (digitValue tens * 10 + digitValue ones) else none

/-- Whether two digits are a number between two bounds. -/
def isBetween (least greatest : Nat) (tens ones : Char) : Bool :=
  match twoDigits? tens ones with
  | some n => least ≤ n && n ≤ greatest
  | none => false

def daysOfMonth (year month : Nat) : Nat :=
  let leap := year % 4 == 0 && (year % 100 != 0 || year % 400 == 0)
  if month = 2 then (if leap then 29 else 28)
  else if month = 4 ∨ month = 6 ∨ month = 9 ∨ month = 11 then 30
  else 31

/-- Whether four, two and two digits are a day of the calendar. -/
def isDay (century year month day : Option Nat) : Bool :=
  match century, year, month, day with
  | some century, some year, some month, some day =>
      1 ≤ month && month ≤ 12 && 1 ≤ day && day ≤ daysOfMonth (century * 100 + year) month
  | _, _, _, _ => false

/-- What follows a date in front of a text, if a date is there. -/
def afterDate? : List Char → Option (List Char)
  | c₁ :: c₂ :: y₁ :: y₂ :: '-' :: m₁ :: m₂ :: '-' :: d₁ :: d₂ :: rest =>
      if isDay (twoDigits? c₁ c₂) (twoDigits? y₁ y₂) (twoDigits? m₁ m₂) (twoDigits? d₁ d₂) then
        some rest
      else none
  | _ => none

/-- What follows a time in front of a text, if a time is there. A second may be
a leap second. -/
def afterTime? : List Char → Option (List Char)
  | h₁ :: h₂ :: ':' :: m₁ :: m₂ :: ':' :: s₁ :: s₂ :: rest =>
      if isBetween 0 23 h₁ h₂ && isBetween 0 59 m₁ m₂ && isBetween 0 60 s₁ s₂ then
        match rest with
        | '.' :: c :: more =>
            if c.isDigit then some (more.dropWhile Char.isDigit) else some ('.' :: c :: more)
        | other => some other
      else none
  | _ => none

/-- Whether a text is the offset of a time, or nothing. -/
def isOffset : List Char → Bool
  | [] => true
  | [zone] => zone == 'Z' || zone == 'z'
  | [sign, h₁, h₂, ':', m₁, m₂] =>
      (sign == '+' || sign == '-') && isBetween 0 23 h₁ h₂ && isBetween 0 59 m₁ m₂
  | _ => false

def isTimeWithOffset (text : List Char) : Bool :=
  (afterTime? text).any isOffset

/-- Whether a text is a date, a time, or a date with a time. -/
def isMoment (text : List Char) : Bool :=
  match afterDate? text with
  | some [] => true
  | some (mark :: time) => (mark == 'T' || mark == 't' || mark == ' ') && isTimeWithOffset time
  | none => afterTime? text == some []

/-- Reads a value that is written without quotes and brackets. -/
def scalar? (text : List Char) : Option Node :=
  if text == ['t', 'r', 'u', 'e'] then some (.bool true)
  else if text == ['f', 'a', 'l', 's', 'e'] then some (.bool false)
  else if isMoment text then some .moment
  else if isFloat text then some .float
  else integer? text

/-- The text of such a value in front of a text, and what follows it. A date
takes the time after a single space with it. -/
def takeScalar (text : List Char) : List Char × List Char :=
  let word := text.takeWhile isScalarChar
  let rest := text.dropWhile isScalarChar
  match rest with
  | ' ' :: c :: more =>
      if c.isDigit && afterDate? word == some [] then
        let time := (c :: more).takeWhile isScalarChar
        (word ++ ' ' :: time, (c :: more).dropWhile isScalarChar)
      else (word, rest)
  | _ => (word, rest)

end DocQuery.Toml
