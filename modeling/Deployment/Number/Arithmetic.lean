import Deployment.Number

/-! # Arithmetic

Integers are computed exactly and stay integers. Only division leaves them: a quotient that is not
an integer of 64 bits becomes a decimal. As soon as one operand is a decimal, the operation is that
of doubles, and its result has to be finite.
-/

namespace Deployment

/-- The arithmetic operators. -/
inductive ArithmeticOp
  | add
  | sub
  | mul
  | div
  | mod
deriving DecidableEq, Repr

/-- How an arithmetic operator is written. -/
def ArithmeticOp.symbol : ArithmeticOp → String
  | .add => "+"
  | .sub => "-"
  | .mul => "*"
  | .div => "/"
  | .mod => "%"

/-- Why an arithmetic operation has no result. -/
inductive ArithmeticError
  | overflow
  | byZero (op : ArithmeticOp)
  | outOfRange
deriving DecidableEq, Repr

/-- The wording of an arithmetic error. -/
def ArithmeticError.message : ArithmeticError → String
  | .overflow => "integer overflow"
  | .byZero op => s!"`{op.symbol}` by zero"
  | .outOfRange => "result is out of range"

namespace Number

/-- An exact integer result, or overflow. -/
def exact (n : Int) : Except ArithmeticError Number :=
  match ofInt? n with
  | some n => .ok n
  | none => .error .overflow

/-- An operation on two integers. -/
def arithmeticInt (op : ArithmeticOp) (x y : Int64) : Except ArithmeticError Number :=
  match op with
  | .add => exact (x.toInt + y.toInt)
  | .sub => exact (x.toInt - y.toInt)
  | .mul => exact (x.toInt * y.toInt)
  | .div =>
    if y = 0 then .error (.byZero .div)
    else
      -- The quotient of the least integer and `-1` fits no integer and becomes a decimal as well.
      let quotient? := if x.toInt.tmod y.toInt = 0 then ofInt? (x.toInt.tdiv y.toInt) else none
      .ok (quotient?.getD (.decimal ((integer x).toFloat / (integer y).toFloat)))
  | .mod =>
    if y = 0 then .error (.byZero .mod)
    else
      match ofInt? (x.toInt.tdiv y.toInt) with
      | some _ => exact (x.toInt.tmod y.toInt)
      | none => .error .overflow

/-- An operation on two decimals. -/
def arithmeticFloat (op : ArithmeticOp) (x y : Float) : Except ArithmeticError Number :=
  let finite (result : Float) : Except ArithmeticError Number :=
    if result.isFinite then .ok (.decimal result) else .error .outOfRange
  match op with
  | .add => finite (x + y)
  | .sub => finite (x - y)
  | .mul => finite (x * y)
  | .div => if y == 0.0 then .error (.byZero .div) else finite (x / y)
  | .mod => if y == 0.0 then .error (.byZero .mod) else finite (Decimal.remainder x y)

/-- The result of an arithmetic operator. -/
def arithmetic (op : ArithmeticOp) : Number → Number → Except ArithmeticError Number
  | .integer x, .integer y => arithmeticInt op x y
  | a, b => arithmeticFloat op a.toFloat b.toFloat

/-- The negated number, unless it is the least integer. -/
def negate : Number → Except ArithmeticError Number
  | .integer n => exact (-n.toInt)
  | .decimal x => .ok (.decimal (-x))

end Number

end Deployment
