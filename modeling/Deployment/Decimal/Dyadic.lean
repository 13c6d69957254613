/-! # Doubles as dyadic numbers

A finite double is a whole number of units `2 ^ exponent` with a sign. Everything exact about
decimals (their shortest text, their whole part, remainders, their order) is computed on this
view in `Nat` and `Int`, so that it can be reasoned about without the hardware operations.
-/

namespace Deployment.Decimal

/-- The number `± mantissa * 2 ^ exponent`. -/
structure Dyadic where
  negative : Bool
  mantissa : Nat
  exponent : Int
deriving DecidableEq, Repr

/-- Whether the sign bit is set; true of `-0.0` as well. -/
def isNegative (x : Float) : Bool :=
  1 <<< 63 ≤ x.toBits.toNat

/-- The dyadic view of a finite double. Of a double that is not finite only the sign is
meaningful. -/
def dyadic (x : Float) : Dyadic :=
  let bits := x.toBits.toNat
  let exponent : Nat := bits >>> 52 % 2048
  let fraction := bits % (1 <<< 52)
  if exponent = 0 then ⟨isNegative x, fraction, -1074⟩
  else ⟨isNegative x, fraction + 1 <<< 52, (exponent : Int) - 1075⟩

/-- The double with the given sign and the magnitude `mantissa * 2 ^ exponent`, provided that it
has one: the mantissa is below `2 ^ 53` and the exponent is at least `-1074` and small enough. -/
def ofDyadic (d : Dyadic) : Float :=
  let width := if d.mantissa = 0 then 0 else d.mantissa.log2 + 1
  let shift := min (53 - width) (d.exponent + 1074).toNat
  let mantissa := d.mantissa <<< shift
  let exponent := d.exponent - shift
  let sign := if d.negative then 1 <<< 63 else 0
  if mantissa < 1 <<< 52 then Float.ofBits (UInt64.ofNat (sign + mantissa))
  else
    Float.ofBits
      (UInt64.ofNat (sign + (exponent + 1075).toNat <<< 52 + (mantissa - 1 <<< 52)))

/-- The whole number that a finite double equals, if it has no fractional part. -/
def whole? (x : Float) : Option Int :=
  if x.isFinite then
    let d := dyadic x
    let magnitude : Option Nat :=
      if 0 ≤ d.exponent then some (d.mantissa <<< d.exponent.toNat)
      else if d.mantissa % (1 <<< (-d.exponent).toNat) = 0 then
        some (d.mantissa >>> (-d.exponent).toNat)
      else none
    magnitude.map fun n => if d.negative then -(n : Int) else n
  else none

/-- The place of a double in the total order of all doubles: by value, with `-0.0` directly
before `0.0`, the infinities outside the finite numbers and NaN outside the infinities. -/
def rank (x : Float) : Int :=
  let bits := x.toBits.toNat
  if bits < 1 <<< 63 then bits else Int64.maxValue.toInt - (bits : Int)

/-- The remainder of truncated division, which is exact and has the sign of the dividend. The
divisor is not zero. -/
def remainder (x y : Float) : Float :=
  if !x.isFinite || y.isNaN then 0.0 / 0.0
  else if !y.isFinite then x
  else
    let a := dyadic x
    let b := dyadic y
    let unit := min a.exponent b.exponent
    let dividend := a.mantissa <<< (a.exponent - unit).toNat
    let divisor := b.mantissa <<< (b.exponent - unit).toNat
    ofDyadic ⟨a.negative, dividend % divisor, unit⟩

end Deployment.Decimal
