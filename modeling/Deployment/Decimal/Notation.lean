import Deployment.Decimal.Shortest

/-! # Reading decimals

A decimal is written as an optional sign, digits with an optional point among or around them, and
an optional exponent. `ofNotation?` reads such a text as the nearest double. Beside numbers it
knows the names of infinity and NaN.
-/

namespace Deployment.Decimal

/-- The number that a sequence of decimal digits denotes. -/
def natOfDigits (digits : List Char) : Nat :=
  digits.foldl (fun n c => 10 * n + (c.toNat - '0'.toNat)) 0

/-- The double nearest to `significand * 10 ^ exponent`. Magnitudes beyond every double are decided
by their number of digits alone. -/
def nearest (significand : Nat) (exponent : Int) : Float :=
  let order := exponent + digitCount significand
  if significand = 0 || order < -330 then 0.0
  else if 310 < order then 1.0 / 0.0
  else if 0 ≤ exponent then Float.ofScientific significand false exponent.toNat
  else Float.ofScientific significand true (-exponent).toNat

/-- Reads an exponent, `e` or `E` with an optional sign and at least one digit, up to the end of
the text. No exponent at all stands for zero. -/
def exponentOf? : List Char → Option Int
  | [] => some 0
  | 'e' :: rest | 'E' :: rest =>
    let (negative, digits) :=
      match rest with
      | '-' :: digits => (true, digits)
      | '+' :: digits => (false, digits)
      | digits => (false, digits)
    if digits.isEmpty || !digits.all Char.isDigit then none
    else some (if negative then -(natOfDigits digits : Int) else natOfDigits digits)
  | _ => none

/-- Reads an unsigned decimal: digits, a point and digits (one of the two groups may be empty), and
an exponent. -/
def magnitude? (text : List Char) : Option Float :=
  let leading := text.takeWhile Char.isDigit
  let (trailing, rest) :=
    match text.dropWhile Char.isDigit with
    | '.' :: rest => (rest.takeWhile Char.isDigit, rest.dropWhile Char.isDigit)
    | rest => ([], rest)
  if leading.isEmpty && trailing.isEmpty then none
  else (exponentOf? rest).map fun exponent =>
    nearest (natOfDigits (leading ++ trailing)) (exponent - trailing.length)

/-- Reads a decimal with an optional sign, also `inf`, `infinity` and `nan` in any case. -/
def ofNotation? (text : List Char) : Option Float :=
  let (negative, body) :=
    match text with
    | '-' :: body => (true, body)
    | '+' :: body => (false, body)
    | body => (false, body)
  let magnitude :=
    match String.ofList (body.map Char.toLower) with
    | "inf" | "infinity" => some (1.0 / 0.0)
    | "nan" => some (0.0 / 0.0)
    | _ => magnitude? body
  magnitude.map fun x => if negative then -x else x

end Deployment.Decimal
