import Deployment.Expr.Evaluation
import Deployment.Proofs.Syntax.Numerals
import Mathlib

/-! # Arithmetic on integers

Sums, differences, products and negations of integers are exact: the outcome is the integer that the
operation has on unbounded integers, or overflow if 64 bits do not hold it (`Number.exact_cases`).
A quotient without a remainder is an integer as well, and every remainder fits 64 bits. There is
one exception, the least integer divided by `-1` (`Number.Undivided`): the quotient is `2 ^ 63`,
which no integer of 64 bits is, and evaluates to a decimal, and the remainder is zero, but evaluates
to overflow. For all other integers, evaluation is exact (`Expr.evaluate_integers`).
-/

namespace Deployment

namespace Number

/-- The one division by something other than zero whose quotient does not fit 64 bits. -/
def Undivided (x y : Int64) : Prop :=
  x = Int64.minValue ∧ y = -1

instance (x y : Int64) : Decidable (Undivided x y) :=
  inferInstanceAs (Decidable (_ ∧ _))

section Division

variable {x y : Int64}

/-- Within 64 bits division is exact but for the one case. -/
theorem toInt_div_of_not_undivided (h : ¬Undivided x y) :
    (x / y).toInt = x.toInt.tdiv y.toInt := by
  by_cases hx : x = Int64.minValue
  · exact Int64.toInt_div_of_ne_right x y fun hy => h ⟨hx, hy⟩
  · exact Int64.toInt_div_of_ne_left x y hx

/-- In the one case the quotient is the first number that is too large. -/
theorem tdiv_of_undivided (h : Undivided x y) : x.toInt.tdiv y.toInt = 2 ^ 63 := by
  obtain ⟨rfl, rfl⟩ := h
  decide

/-- No integer of 64 bits is that quotient. -/
theorem toInt_ne_of_undivided (h : Undivided x y) (k : Int64) : k.toInt ≠ x.toInt.tdiv y.toInt := by
  have hlt := k.toInt_lt
  rw [tdiv_of_undivided h]
  omega

end Division

/-! ## Exact results -/

/-- What is no integer of 64 bits is not converted to one. -/
theorem ofInt?_eq_none {n : Int} (h : ∀ k : Int64, k.toInt ≠ n) : ofInt? n = none := by
  refine if_neg fun ⟨hlow, hhigh⟩ => h (Int64.ofInt n) ?_
  exact Int64.toInt_ofInt_of_le hlow (Int.lt_of_le_of_lt hhigh (by decide))

/-- An integer of 64 bits is its own exact result. -/
theorem exact_toInt (k : Int64) : exact k.toInt = .ok (.integer k) := by
  rw [exact, ofInt?_toInt]

/-- Every other integer overflows. -/
theorem exact_eq_overflow {n : Int} (h : ∀ k : Int64, k.toInt ≠ n) :
    exact n = .error .overflow := by
  rw [exact, ofInt?_eq_none h]

/-- An exact result is the integer itself, or overflow if there is no such integer. -/
theorem exact_cases (n : Int) :
    (∃ k : Int64, k.toInt = n ∧ exact n = .ok (.integer k)) ∨
      (∀ k : Int64, k.toInt ≠ n) ∧ exact n = .error .overflow := by
  by_cases h : ∃ k : Int64, k.toInt = n
  · obtain ⟨k, rfl⟩ := h
    exact .inl ⟨k, rfl, exact_toInt k⟩
  · have hnone : ∀ k : Int64, k.toInt ≠ n := not_exists.mp h
    exact .inr ⟨hnone, exact_eq_overflow hnone⟩

/-! ## Quotients and remainders -/

variable {x y : Int64}

/-- A quotient with a remainder is that of the two numbers as doubles. -/
theorem arithmeticInt_div (hy : y ≠ 0) :
    arithmeticInt .div x y = .ok (
      if y.toInt ∣ x.toInt ∧ ¬Undivided x y then .integer (x / y)
      else .decimal ((integer x).toFloat / (integer y).toFloat)) := by
  rw [arithmeticInt, if_neg hy]
  by_cases hdvd : y.toInt ∣ x.toInt
  · rw [if_pos (Int.tmod_eq_zero_of_dvd hdvd)]
    by_cases hcorner : Undivided x y
    · rw [if_neg (fun h => h.2 hcorner), ofInt?_eq_none (toInt_ne_of_undivided hcorner)]
      rfl
    · rw [if_pos ⟨hdvd, hcorner⟩, ← toInt_div_of_not_undivided hcorner, ofInt?_toInt]
      rfl
  · rw [if_neg (mt Int.dvd_of_tmod_eq_zero hdvd), if_neg (fun h => hdvd h.1)]
    rfl

/-- A remainder is exact but for the one case, in which it overflows. -/
theorem arithmeticInt_mod (hy : y ≠ 0) :
    arithmeticInt .mod x y =
      if Undivided x y then .error .overflow else .ok (.integer (x % y)) := by
  rw [arithmeticInt, if_neg hy]
  by_cases hcorner : Undivided x y
  · rw [if_pos hcorner, ofInt?_eq_none (toInt_ne_of_undivided hcorner)]
  · rw [if_neg hcorner, ← toInt_div_of_not_undivided hcorner, ofInt?_toInt,
      ← Int64.toInt_mod, exact_toInt]

end Number

/-! ## Expressions on integers -/

namespace Expr

variable {context : Context} {location : String}

/-- Evaluating the expression is exact: its value is the integer `n`, or evaluation fails with
overflow because 64 bits do not hold `n`. -/
inductive Exactly (context : Context) (location : String) (e : Expr) (n : Int) : Prop
  | fits (k : Int64) (hk : k.toInt = n)
      (h : evaluate context location e = .ok (.number (.integer k)))
  | overflows (hk : ∀ k : Int64, k.toInt ≠ n)
      (h : evaluate context location e =
        .error (.invalid e.render (.arithmetic .overflow) location))

/-- What arithmetic on two expressions comes to that are used as the integers `x` and `y`. -/
structure IntegerLaws (context : Context) (location : String) (l r : Expr) (x y : Int64) :
    Prop where
  add : Exactly context location (.binary (.arithmetic .add) l r) (x.toInt + y.toInt)
  sub : Exactly context location (.binary (.arithmetic .sub) l r) (x.toInt - y.toInt)
  mul : Exactly context location (.binary (.arithmetic .mul) l r) (x.toInt * y.toInt)
  neg : Exactly context location (.unary .neg l) (-x.toInt)
  byZero (op : ArithmeticOp) (hop : op = .div ∨ op = .mod) : y = 0 →
    evaluate context location (.binary (.arithmetic op) l r) =
      .error (.invalid (render (.binary (.arithmetic op) l r)) (.arithmetic (.byZero op)) location)
  /-- A quotient without a remainder is exact, but for the one that does not fit. -/
  quotient : y ≠ 0 →
    ((∀ q : Int, x.toInt = q * y.toInt →
        Exactly context location (.binary (.arithmetic .div) l r) q) ↔
      ¬Number.Undivided x y)
  /-- A quotient with a remainder is a decimal, and so is the one that does not fit. -/
  fraction : y ≠ 0 → ∀ d : Float,
    evaluate context location (.binary (.arithmetic .div) l r) = .ok (.number (.decimal d)) ↔
      (¬y.toInt ∣ x.toInt ∨ Number.Undivided x y) ∧
        d = (Number.integer x).toFloat / (Number.integer y).toFloat
  /-- The remainder always fits, and it is the value, but for the division that does not. -/
  remainder : y ≠ 0 → ∃ k : Int64, k.toInt = x.toInt - y.toInt * x.toInt.tdiv y.toInt ∧
    (evaluate context location (.binary (.arithmetic .mod) l r) = .ok (.number (.integer k)) ↔
      ¬Number.Undivided x y)

/-- The outcome of an operation on numbers as that of an expression. -/
def outcome (location : String) (e : Expr) :
    Except ArithmeticError Number → Except Failure Value
  | .ok n => .ok (.number n)
  | .error reason => .error (.invalid e.render (.arithmetic reason) location)

/-- An arithmetic expression has the outcome of its operation on the two numbers. -/
theorem evaluate_arithmetic (op : ArithmeticOp) {l r : Expr} {v w : Value} {a b : Number}
    (hl : evaluate context location l = .ok v) (ha : v.number? = some a)
    (hr : evaluate context location r = .ok w) (hb : w.number? = some b) :
    evaluate context location (.binary (.arithmetic op) l r) =
      outcome location (.binary (.arithmetic op) l r) (Number.arithmetic op a b) := by
  have hleft (written : String) : v.asOperand (.arithmetic op) written location = .ok a := by
    rw [Value.asOperand, ha]
  have hright (written : String) : w.asOperand (.arithmetic op) written location = .ok b := by
    rw [Value.asOperand, hb]
  rw [evaluate, hl, hr]
  show applyArithmetic op v w _ location = _
  rw [applyArithmetic, hleft, hright]
  show (match Number.arithmetic op a b with | .ok n => _ | .error e => _) = _
  cases Number.arithmetic op a b <;> rfl

/-- A negation has the outcome of negating the number. -/
theorem evaluate_negation {e : Expr} {v : Value} {a : Number}
    (h : evaluate context location e = .ok v) (ha : v.number? = some a) :
    evaluate context location (.unary .neg e) = outcome location (.unary .neg e) a.negate := by
  rw [evaluate, h]
  show applyNegation v _ location = _
  rw [applyNegation, ha]
  dsimp only
  cases a.negate <;> rfl

/-- An expression is exact if its outcome is an exact result. -/
theorem exactly_of_exact {e : Expr} {n : Int}
    (h : evaluate context location e = outcome location e (Number.exact n)) :
    Exactly context location e n := by
  rcases Number.exact_cases n with ⟨k, hk, hexact⟩ | ⟨hnone, hexact⟩
  · exact .fits k hk (by rw [h, hexact]; rfl)
  · exact .overflows hnone (by rw [h, hexact]; rfl)

section Division

variable {e : Expr} {x y : Int64}

/-- A quotient without a remainder is exact but for the one case. -/
theorem quotient_exactly_iff (hy : y ≠ 0)
    (h : evaluate context location e = outcome location e (Number.arithmeticInt .div x y)) :
    (∀ q : Int, x.toInt = q * y.toInt → Exactly context location e q) ↔
      ¬Number.Undivided x y := by
  rw [Number.arithmeticInt_div hy] at h
  constructor
  · intro hexact hcorner
    have hwhole : x.toInt = 2 ^ 63 * y.toInt := by
      rw [hcorner.1, hcorner.2]
      decide
    rw [if_neg (fun hfits => hfits.2 hcorner)] at h
    cases hexact _ hwhole with
    | fits k hk =>
      have hlt := k.toInt_lt
      omega
    | overflows _ hoverflow => cases h.symm.trans hoverflow
  · intro hcorner q hq
    have hdvd : y.toInt ∣ x.toInt := ⟨q, by rw [hq, Int.mul_comm]⟩
    have hne : y.toInt ≠ 0 := fun hzero => hy (Int64.toInt_inj.mp hzero)
    rw [if_pos ⟨hdvd, hcorner⟩] at h
    refine .fits (x / y) ?_ h
    rw [Number.toInt_div_of_not_undivided hcorner, hq, Int.mul_tdiv_cancel _ hne]

/-- A quotient is a decimal if there is a remainder, and in the one case. -/
theorem quotient_decimal_iff (hy : y ≠ 0)
    (h : evaluate context location e = outcome location e (Number.arithmeticInt .div x y))
    (d : Float) :
    evaluate context location e = .ok (.number (.decimal d)) ↔
      (¬y.toInt ∣ x.toInt ∨ Number.Undivided x y) ∧
        d = (Number.integer x).toFloat / (Number.integer y).toFloat := by
  rw [h, Number.arithmeticInt_div hy]
  split
  · rename_i hexact
    refine iff_of_false nofun ?_
    rintro ⟨hrest | hcorner, -⟩
    · exact hrest hexact.1
    · exact hexact.2 hcorner
  · rename_i hexact
    rw [not_and_or, not_not] at hexact
    rw [and_iff_right hexact]
    constructor
    · intro heq
      cases heq
      rfl
    · rintro rfl
      rfl

/-- A remainder is the value of the expression but for the one case. -/
theorem remainder_integer_iff (hy : y ≠ 0)
    (h : evaluate context location e = outcome location e (Number.arithmeticInt .mod x y)) :
    evaluate context location e = .ok (.number (.integer (x % y))) ↔ ¬Number.Undivided x y := by
  rw [h, Number.arithmeticInt_mod hy]
  split
  · rename_i hcorner
    exact iff_of_false nofun (not_not_intro hcorner)
  · rename_i hcorner
    exact iff_of_true rfl hcorner

end Division

/-- Arithmetic on integers of 64 bits is exact, but for the one division that does not fit. -/
theorem evaluate_integers {l r : Expr} {v w : Value} {x y : Int64}
    (hl : evaluate context location l = .ok v) (hx : v.number? = some (.integer x))
    (hr : evaluate context location r = .ok w) (hy : w.number? = some (.integer y)) :
    IntegerLaws context location l r x y := by
  have hvalue (op : ArithmeticOp) :
      evaluate context location (.binary (.arithmetic op) l r) =
        outcome location (.binary (.arithmetic op) l r) (Number.arithmeticInt op x y) :=
    evaluate_arithmetic op hl hx hr hy
  constructor
  case add => exact exactly_of_exact (hvalue .add)
  case sub => exact exactly_of_exact (hvalue .sub)
  case mul => exact exactly_of_exact (hvalue .mul)
  case neg => exact exactly_of_exact (evaluate_negation hl hx)
  case byZero => rintro op (rfl | rfl) rfl <;> exact hvalue _
  case quotient => exact fun hne => quotient_exactly_iff hne (hvalue .div)
  case fraction => exact fun hne => quotient_decimal_iff hne (hvalue .div)
  case remainder =>
    intro hne
    refine ⟨x % y, ?_, remainder_integer_iff hne (hvalue .mod)⟩
    rw [Int64.toInt_mod, Int.tmod_def]

/-- Seven and minus two: the quotient has a remainder, all else is an integer. -/
theorem integers_seven_negTwo :
    IntegerLaws ⟨[], []⟩ "test" (.literal (.number (.integer 7)))
      (.literal (.number (.integer (-2)))) 7 (-2) :=
  evaluate_integers (by rw [evaluate]) rfl (by rw [evaluate]) rfl

/-- The least integer is `2 ^ 63` times `-1`, but the quotient is neither that integer nor an
overflow, and the remainder is not zero but an overflow. -/
theorem leastDivided_inexact :
    let least : Expr := .literal (.number (.integer Int64.minValue))
    let negOne : Expr := .literal (.number (.integer (-1)))
    (Int64.minValue.toInt = 2 ^ 63 * (-1 : Int64).toInt ∧
        ¬Exactly ⟨[], []⟩ "test" (.binary (.arithmetic .div) least negOne) (2 ^ 63)) ∧
      Int64.minValue.toInt - (-1 : Int64).toInt * Int64.minValue.toInt.tdiv (-1 : Int64).toInt = 0 ∧
        evaluate ⟨[], []⟩ "test" (.binary (.arithmetic .mod) least negOne) =
          .error (.invalid (render (.binary (.arithmetic .mod) least negOne))
            (.arithmetic .overflow) "test") := by
  intro least negOne
  have hliteral (n : Int64) :
      evaluate ⟨[], []⟩ "test" (.literal (.number (.integer n))) = .ok (.number (.integer n)) := by
    rw [evaluate]
  have hvalue (op : ArithmeticOp) :
      evaluate ⟨[], []⟩ "test" (.binary (.arithmetic op) least negOne) =
        outcome "test" (.binary (.arithmetic op) least negOne)
          (Number.arithmeticInt op Int64.minValue (-1)) :=
    evaluate_arithmetic op (hliteral _) rfl (hliteral _) rfl
  have hcorner : Number.Undivided Int64.minValue (-1) := ⟨rfl, rfl⟩
  refine ⟨⟨by decide, fun h => ?_⟩, by decide, ?_⟩
  -- The quotient is a decimal, which is neither of the two outcomes that would be exact.
  · have hquotient := hvalue .div
    rw [Number.arithmeticInt_div (by decide), if_neg (fun h => h.2 hcorner)] at hquotient
    cases h with
    | fits k hk =>
      have hlt := k.toInt_lt
      omega
    | overflows _ h => cases hquotient.symm.trans h
  · rw [hvalue, Number.arithmeticInt_mod (by decide), if_pos hcorner]
    rfl

end Expr

end Deployment
