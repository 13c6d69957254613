import Deployment.Decimal.Dyadic

/-! # Shortest decimal digits

The text of a double has the fewest significant digits that still read back as the same double.
A decimal reads back as `x` exactly if it lies in the interval between the midpoints to the two
neighbours of `x`; the midpoints themselves belong to it if the mantissa of `x` is even.

All quantities are scaled to whole numbers: with the unit a quarter of the last place of `x`, the
value is `4 * mantissa` units and the midpoints are two units away (one unit, below the smallest
mantissa of a binade). For one digit, two digits and so on, the two points of the decimal grid
around the value are tested, and the first grid with a point in the interval wins.
-/

namespace Deployment.Decimal

/-- The decimal number `significand * 10 ^ exponent`. -/
structure Digits where
  significand : Nat
  exponent : Int
deriving DecidableEq, Repr

/-- The number of decimal digits of a number, one for zero. -/
def digitCount (n : Nat) : Nat :=
  (Nat.toDigits 10 n).length

/-- The same decimal number without zeros at the end of its significand. -/
def Digits.strip (significand : Nat) (exponent : Int) : Digits :=
  if h : significand ≠ 0 ∧ significand % 10 = 0 then strip (significand / 10) (exponent + 1)
  else ⟨significand, exponent⟩
termination_by significand
decreasing_by exact Nat.div_lt_self (Nat.pos_of_ne_zero h.1) (by decide)

/-- The interval of decimals that read back as one double, in units of `10 ^ scale`. -/
structure Interval where
  value : Nat
  low : Nat
  high : Nat
  closed : Bool
  scale : Int

/-- Whether a number of units lies in the interval. -/
def Interval.contains (i : Interval) (n : Nat) : Bool :=
  if i.closed then i.low ≤ n && n ≤ i.high else i.low < n && n < i.high

/-- The interval around a positive double. -/
def Interval.around (d : Dyadic) : Interval :=
  let unit := if 2 ≤ d.exponent then 1 <<< (d.exponent - 2).toNat
    else Nat.pow 5 (2 - d.exponent).toNat
  let below := if d.mantissa = 1 <<< 52 && d.exponent != -1074 then 1 else 2
  { value := 4 * d.mantissa * unit
    low := (4 * d.mantissa - below) * unit
    high := (4 * d.mantissa + 2) * unit
    closed := d.mantissa % 2 == 0
    scale := if 2 ≤ d.exponent then 0 else d.exponent - 2 }

/-- Which of two equally near points is taken. -/
inductive Tie
  /-- The larger one. -/
  | up
  /-- The one whose last digit is even. -/
  | even
deriving DecidableEq, Repr

/-- Whether of two neighbouring points the lower one is taken, given its digits and the distances
of the value to both. -/
def Tie.takesLower (tie : Tie) (point toLower toUpper : Nat) : Bool :=
  toLower < toUpper || (toLower == toUpper && tie == .even && point % 2 == 0)

/-- The better point of the grid with `count` significant digits, if one lies in the interval. Of
two points in it the nearer wins. -/
def Interval.onGrid? (i : Interval) (tie : Tie) (count : Nat) : Option Digits :=
  let width := digitCount i.value
  -- A grid as fine as the value itself has the value as one of its points.
  if width ≤ count then some (Digits.strip i.value i.scale)
  else
    let step := Nat.pow 10 (width - count)
    let point := i.value / step
    let exponent := i.scale + (width - count : Nat)
    let below := i.contains (point * step)
    let above := i.contains ((point + 1) * step)
    let lower := tie.takesLower point (i.value - point * step) ((point + 1) * step - i.value)
    -- With both points in the interval the nearer one is taken.
    if below && (!above || lower) then some (Digits.strip point exponent)
    else if above then some (Digits.strip (point + 1) exponent)
    else none

/-- The fewest digits that read back as the magnitude of a finite double. Seventeen always
suffice, so the exact value at the end is never needed. -/
def shortest (tie : Tie) (x : Float) : Digits :=
  let d := dyadic x
  if d.mantissa = 0 then ⟨0, 0⟩
  else
    let interval := Interval.around d
    ((List.range 17).findSome? fun n => interval.onGrid? tie (n + 1)).getD
      (Digits.strip interval.value interval.scale)

end Deployment.Decimal
