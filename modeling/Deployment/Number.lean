import Deployment.Decimal.Layout
import Deployment.Decimal.Notation
import Deployment.Text.Blank

/-! # Numbers

A number is an integer of 64 bits or a decimal (a double). Integers stay integers until an
operation needs a fraction. The two kinds are equal by value, so `1` equals `1.0`; ordering is
exact between integers and the total order of doubles as soon as a decimal takes part.
-/

namespace Deployment

/-- An integer or a decimal. -/
inductive Number
  | integer (n : Int64)
  | decimal (x : Float)
deriving Inhabited

namespace Number

/-- The integer of a given value, if it fits 64 bits. -/
def ofInt? (n : Int) : Option Number :=
  if Int64.minValue.toInt ≤ n ∧ n ≤ Int64.maxValue.toInt then some (.integer (Int64.ofInt n))
  else none

/-- Reads plain decimal notation between blanks: an optional minus and a digit come first. A
sequence of digits that fits is an integer, all else must be a finite decimal. -/
def parse? (text : String) : Option Number :=
  let text := Text.trim text.toList
  let (negative, digits) :=
    match text with
    | '-' :: digits => (true, digits)
    | digits => (false, digits)
  if !digits.head?.any Char.isDigit then none
  else
    let integer? :=
      if digits.all Char.isDigit then
        let n : Int := Decimal.natOfDigits digits
        ofInt? (if negative then -n else n)
      else none
    integer?.or (((Decimal.ofNotation? text).filter Float.isFinite).map .decimal)

/-- The nearest double. -/
def toFloat : Number → Float
  | .integer n => Float.ofInt n.toInt
  | .decimal x => x

/-- The number as an integer, if it has no fraction. A decimal has to be of magnitude below
`2 ^ 63`. -/
def whole? : Number → Option Int64
  | .integer n => some n
  | .decimal x =>
    ((Decimal.whole? x).filter fun n => n.natAbs ≤ Int64.maxValue.toInt.toNat).map Int64.ofInt

/-- Whether the number is zero of either kind and sign. -/
def isZero (n : Number) : Bool :=
  n.toFloat == 0.0

/-- Equality by value. -/
def beq : Number → Number → Bool
  | .integer a, .integer b => a == b
  | a, b => a.toFloat == b.toFloat

instance : BEq Number := ⟨beq⟩

/-- The order of two numbers. -/
def compare : Number → Number → Ordering
  | .integer a, .integer b => Ord.compare a.toInt b.toInt
  | a, b => Ord.compare (Decimal.rank a.toFloat) (Decimal.rank b.toFloat)

/-- The text of a number with decimals in a given layout. -/
def write (layout : Decimal.Layout) : Number → String
  | .integer n => toString n.toInt
  | .decimal x => layout.write x

/-- The text of a number spliced into other text. -/
def toText (n : Number) : String :=
  n.write .spliced

end Number

end Deployment
