/-!
Decimal numbers as they are written: a whole number of digits and a power of ten. A decimal is
written in one of two layouts, with the point among the digits or with an exponent of ten after the
first digit.
-/
namespace DocQuery

/-- The number `digits · 10 ^ exponent`. -/
structure Decimal where
  digits : Nat
  exponent : Int
  deriving DecidableEq, Repr

namespace Decimal

/-- The number of decimal digits of a natural number, one for zero. -/
def length (n : Nat) : Nat :=
  (Nat.toDigits 10 n).length

def value (digits : List Char) : Nat :=
  Nat.ofDigitChars 10 digits 0

/-- The text after an exponent mark: an optional sign and at least one digit. -/
def exponentOfText? (text : List Char) : Option Int :=
  let magnitude (digits : List Char) : Option Nat :=
    if digits ≠ [] ∧ digits.all Char.isDigit then some (value digits) else none
  match text with
  | '-' :: digits => (magnitude digits).map fun n => -(n : Int)
  | '+' :: digits => (magnitude digits).map Int.ofNat
  | digits => (magnitude digits).map Int.ofNat

/-- The text after the whole part: an optional point with digits and an optional
exponent. Gives the digits of the fraction and the exponent. -/
def tailOfText? (text : List Char) : Option (List Char × Int) :=
  let exponent? (fraction rest : List Char) : Option (List Char × Int) :=
    match rest with
    | [] => some (fraction, 0)
    | c :: rest =>
        if c = 'e' ∨ c = 'E' then (exponentOfText? rest).map fun exponent => (fraction, exponent)
        else none
  match text with
  | '.' :: rest =>
      let fraction := rest.takeWhile Char.isDigit
      if fraction = [] then none else exponent? fraction (rest.dropWhile Char.isDigit)
  | rest => exponent? [] rest

/-- Reads digits with an optional fraction and an optional exponent, without a
sign. -/
def ofText? (text : List Char) : Option Decimal :=
  let whole := text.takeWhile Char.isDigit
  if whole = [] then none
  else (tailOfText? (text.dropWhile Char.isDigit)).map fun (fraction, exponent) =>
    ⟨value (whole ++ fraction), exponent - fraction.length⟩

/-- How numbers with a fraction or an exponent are written. -/
structure Style where
  /-- Least exponent of the first digit that is written with a point among the
  digits. -/
  lowest : Int
  /-- Greatest exponent of the first digit that is written so. -/
  highest : Int
  /-- Whether a positive exponent carries a sign. -/
  plus : Bool
  /-- Whether a value halfway between two shortest decimals goes to the larger
  one, and not to the even one. -/
  tieUp : Bool

/-- Digits with the point after the first `point` of them, and at least one
digit on either side. -/
def positional (digits : List Char) (point : Int) : List Char :=
  match point with
  | .ofNat (n + 1) =>
      let whole := digits.take (n + 1)
      let fraction := digits.drop (n + 1)
      whole ++ List.replicate (n + 1 - whole.length) '0' ++
        '.' :: (if fraction = [] then ['0'] else fraction)
  | .ofNat 0 => '0' :: '.' :: digits
  | .negSucc n => '0' :: '.' :: (List.replicate (n + 1) '0' ++ digits)

/-- Digits with the point after the first of them and an exponent of ten. -/
def scientific (plus : Bool) (digits : List Char) (exponent : Int) : List Char :=
  let fraction := digits.drop 1
  let sign := if exponent < 0 then ['-'] else if plus then ['+'] else []
  digits.take 1 ++ (if fraction = [] then [] else '.' :: fraction) ++
    'e' :: (sign ++ Nat.toDigits 10 exponent.natAbs)

def renderInteger (n : Int) : List Char :=
  if n < 0 then '-' :: Nat.toDigits 10 n.natAbs else Nat.toDigits 10 n.natAbs

/-- The text of a decimal, without the zeros that end its digits. -/
def render (style : Style) (d : Decimal) : List Char :=
  if d.digits = 0 then ['0', '.', '0']
  else
    let written := Nat.toDigits 10 d.digits
    let exponent := d.exponent + written.length - 1
    let digits := (written.reverse.dropWhile (· == '0')).reverse
    if style.lowest ≤ exponent ∧ exponent ≤ style.highest then positional digits (exponent + 1)
    else scientific style.plus digits exponent

end Decimal

end DocQuery
