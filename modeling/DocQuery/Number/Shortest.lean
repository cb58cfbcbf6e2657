import DocQuery.Number.Double
/-!
The shortest decimal of a double: of the decimals that read back as the double one with the fewest
digits, and of those the nearest. A double is a whole number of `10 ^ -1074`, so its decimals with
fewer digits are that whole number cut after some digits, or the next larger one.
-/
namespace DocQuery

namespace Double

def decimalSize (x : Double) : Nat :=
  x.size * Nat.pow 5 1074

/-- Whether `count · 10 ^ (dropped - 1074)` reads back as the double. -/
def readsBack (x : Double) (dropped count : Nat) : Bool :=
  nearest? x.negative (count * Nat.pow 10 dropped) (Nat.pow 10 1074) == some x

/-- Of two neighbouring counts the one that reads back, and the nearer one if
both do. -/
def better? (upperNearer lowerReads upperReads : Bool) (lower : Nat) : Option Nat :=
  match lowerReads, upperReads with
  | true, true => some (if upperNearer then lower + 1 else lower)
  | true, false => some lower
  | false, true => some (lower + 1)
  | false, false => none

/-- The better of the two decimals next to the double that leave out its last
`dropped` digits, if any of them reads back. -/
def rounded? (tieUp : Bool) (x : Double) (dropped : Nat) : Option Decimal :=
  let scale := Nat.pow 10 dropped
  let lower := x.decimalSize / scale
  let twice := 2 * (x.decimalSize % scale)
  let upperNearer := scale < twice || (twice == scale && (tieUp || lower % 2 == 1))
  (better? upperNearer (x.readsBack dropped lower) (x.readsBack dropped (lower + 1)) lower).map
    fun count => ⟨count, (dropped : Int) - 1074⟩

/-- The shortest decimal. Seventeen digits are always enough; the exact value
stands behind them. -/
def shortest (tieUp : Bool) (x : Double) : Decimal :=
  let length := Decimal.length x.decimalSize
  ((List.range 17).findSome? fun more => x.rounded? tieUp (length - 1 - more)).getD
    ⟨x.decimalSize, -1074⟩

/-- The shortest decimal in writing, with the sign also of a negative zero. -/
def render (style : Decimal.Style) (x : Double) : List Char :=
  let text := (x.shortest style.tieUp).render style
  if x.negative then '-' :: text else text

end Double

end DocQuery
