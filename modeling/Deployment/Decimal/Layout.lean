import Deployment.Decimal.Shortest

/-! # Layouts of decimals

The digits of a decimal are the same everywhere; how they are laid out depends on where they are
written. A `Layout` holds the decisions, and the four layouts of this library are listed here.
-/

namespace Deployment.Decimal

/-- How the digits of a decimal are written down. The order of magnitude is the exponent of the
first digit: `0` for `1.5`, `-3` for `0.001`. -/
structure Layout where
  /-- The orders of magnitude that are written with a point and no exponent. -/
  positional : Int → Bool
  /-- Whether a positional whole number ends in `.0`. -/
  pointZero : Bool
  /-- Whether a positive exponent carries a plus sign. -/
  plusSign : Bool
  /-- Which of two equally short and equally near digit sequences is written. -/
  tie : Tie

/-- A decimal spliced into text never has an exponent, and no fraction if it is whole. -/
def Layout.spliced : Layout := ⟨fun _ => true, false, false, .up⟩

/-- A decimal in a rendered expression always has a fraction or an exponent, so that it is read
back as a decimal; an exponent stands for magnitudes from `1e16` and below `1e-4`. -/
def Layout.expression : Layout := ⟨fun order => -4 ≤ order && order < 16, true, false, .up⟩

/-- A decimal in JSON has an exponent from `1e16` and below `1e-5`. -/
def Layout.json : Layout := ⟨fun order => -5 ≤ order && order < 16, true, true, .even⟩

/-- A decimal in configuration source and in YAML is laid out as in JSON, except that an exponent
never has a plus sign. -/
def Layout.source : Layout := ⟨fun order => -5 ≤ order && order < 16, true, false, .even⟩

private def zeros (count : Int) : List Char :=
  List.replicate count.toNat '0'

/-- The digits as a number with a point. -/
def Layout.writePositional (layout : Layout) (digits : List Char) (exponent : Int) : List Char :=
  let count : Int := digits.length
  if 0 ≤ exponent then
    digits ++ zeros exponent ++ (if layout.pointZero then ['.', '0'] else [])
  else if 0 < count + exponent then
    digits.take (count + exponent).toNat ++ '.' :: digits.drop (count + exponent).toNat
  else '0' :: '.' :: zeros (-(count + exponent)) ++ digits

/-- The digits in scientific notation with the given order of magnitude. -/
def Layout.writeScientific (layout : Layout) (digits : List Char) (order : Int) : List Char :=
  let fraction := digits.drop 1
  digits.take 1 ++ (if fraction.isEmpty then [] else '.' :: fraction) ++ 'e' ::
    (if layout.plusSign && 0 ≤ order then ['+'] else []) ++ (toString order).toList

/-- The text of a decimal. -/
def Layout.write (layout : Layout) (x : Float) : String :=
  if x.isNaN then "NaN"
  else
    let sign := if isNegative x then "-" else ""
    if !x.isFinite then sign ++ "inf"
    else
      let shortest := shortest layout.tie x
      let digits := Nat.toDigits 10 shortest.significand
      let order := shortest.exponent + digits.length - 1
      sign ++ String.ofList
        (if layout.positional order then layout.writePositional digits shortest.exponent
         else layout.writeScientific digits order)

end Deployment.Decimal
