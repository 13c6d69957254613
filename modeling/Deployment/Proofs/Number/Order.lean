import Deployment.Expr.Evaluation
import Deployment.Proofs.Number.Zero

/-! # The order of numbers

Numbers are compared in three ways: integers with integers as integers, all others by the total
order of doubles, and for equality by the equality of doubles. For most numbers this makes one order
(`Expr.evaluate_comparisons`), and there are exactly two ways in which it does not. A negative and a
positive zero are equal, yet the one is less than the other (`Number.SignedZeros`). And two integers
of more than 53 digits may be converted to the same double, which is then equal to both of them
(`Number.Conflated`).
-/

namespace Deployment

namespace Decimal

/-! ## Zeros of either sign -/

/-- The order of doubles tells all of them apart, the two zeros as well. -/
theorem rank_inj {x y : Float} : rank x = rank y ↔ x = y := by
  rw [← Float.toBits_inj, ← UInt64.toNat_inj]
  have hx : x.toBits.toNat < 2 ^ 64 := x.toBits.toNat_lt
  have hy : y.toBits.toNat < 2 ^ 64 := y.toBits.toNat_lt
  have hmax : Int64.maxValue.toInt = 2 ^ 63 - 1 := rfl
  unfold rank
  dsimp only
  rw [hmax]
  split <;> split <;> omega

/-- A finite double is a number. -/
theorem ne_nan_of_isFinite {x : Float} (h : x.isFinite = true) : x ≠ Float.nan := by
  rintro rfl
  exact absurd h (by decide +kernel)

/-- Finite doubles are equal if they are the same, or zeros of either sign. -/
theorem beq_iff {x y : Float} (hx : x.isFinite = true) (hy : y.isFinite = true) :
    (x == y) = true ↔ x = y ∨ (x = -0.0 ∧ y = 0.0) ∨ (x = 0.0 ∧ y = -0.0) := by
  have hzero : (0 : Float) = 0.0 := rank_inj.mp (by decide +kernel)
  rw [Float.beq_iff_ne_nan_and_eq, hzero, and_iff_right (ne_nan_of_isFinite hx),
    and_iff_right (ne_nan_of_isFinite hy), or_comm (a := x = 0.0 ∧ _)]

theorem rank_zero : rank 0.0 = 0 := by
  decide +kernel

/-- The negative zero stands directly before the positive one. -/
theorem rank_negZero : rank (-0.0) = -1 := by
  decide +kernel

/-- Only zero is converted to a positive zero. -/
theorem eq_zero_of_ofInt {n : Int64} (h : Float.ofInt n.toInt = 0.0) : n = 0 := by
  rw [← ofInt_beq_zero_iff, h]
  decide +kernel

/-- An integer is never converted to a negative zero. -/
theorem ofInt_ne_negZero (n : Int64) : Float.ofInt n.toInt ≠ -0.0 := by
  intro h
  obtain rfl : n = 0 := by
    rw [← ofInt_beq_zero_iff, h]
    decide +kernel
  have hrank := rank_negZero
  rw [← h] at hrank
  exact absurd hrank (by decide +kernel)

end Decimal

namespace Number

/-- A negative zero and a positive one. Only a decimal is a negative zero. -/
def SignedZeros (a b : Number) : Prop :=
  a.toFloat = -0.0 ∧ b.toFloat = 0.0

/-- Two different integers and a decimal that both of them are converted to. -/
def Conflated (a b c : Number) : Prop :=
  ∃ m n : Int64, m ≠ n ∧ Float.ofInt m.toInt = Float.ofInt n.toInt ∧
    a = .integer m ∧ b = .decimal (Float.ofInt m.toInt) ∧ c = .integer n

variable {a b c : Number}

/-! ## Comparing -/

/-- Numbers that are not both integers are compared as doubles. -/
theorem compare_cases (a b : Number) :
    (∃ m n : Int64, a = .integer m ∧ b = .integer n) ∨
      a.compare b = Ord.compare (Decimal.rank a.toFloat) (Decimal.rank b.toFloat) ∧
        (a == b) = (a.toFloat == b.toFloat) := by
  cases a with
  | integer m =>
    cases b with
    | integer n => exact .inl ⟨m, n, rfl, rfl⟩
    | decimal y => exact .inr ⟨rfl, rfl⟩
  | decimal x => exact .inr ⟨rfl, rfl⟩

/-- The smaller of two numbers is not the larger one as a double. It may be the same, if both are
integers. -/
theorem rank_le_of_compare (h : a.compare b = .lt) :
    Decimal.rank a.toFloat ≤ Decimal.rank b.toFloat := by
  rcases compare_cases a b with ⟨m, n, rfl, rfl⟩ | ⟨hcompare, -⟩
  · have hlt : m.toInt < n.toInt := Int.compare_eq_lt.mp h
    exact Decimal.rank_ofInt_mono hlt.le
  · rw [hcompare, Int.compare_eq_lt] at h
    exact h.le

/-- A negative zero is less than a positive one. -/
theorem compare_of_signedZeros (h : SignedZeros a b) : a.compare b = .lt ∧ b.compare a = .gt := by
  obtain ⟨ha, hb⟩ := h
  have hmixed : ¬∃ m n : Int64, a = .integer m ∧ b = .integer n := by
    rintro ⟨m, -, rfl, -⟩
    exact Decimal.ofInt_ne_negZero m ha
  have hmixed' : ¬∃ m n : Int64, b = .integer m ∧ a = .integer n := by
    rintro ⟨-, n, -, rfl⟩
    exact Decimal.ofInt_ne_negZero n ha
  rw [((compare_cases a b).resolve_left hmixed).1, ((compare_cases b a).resolve_left hmixed').1, ha,
    hb, Decimal.rank_zero, Decimal.rank_negZero]
  decide

/-- What the order of two numbers says about the signs of zeros. -/
theorem compare_signedZeros (a b : Number) :
    (a.compare b = .lt ∧ ¬SignedZeros b a) ∨
      (a.compare b = .eq ∧ ¬SignedZeros a b ∧ ¬SignedZeros b a) ∨
      (a.compare b = .gt ∧ ¬SignedZeros a b) := by
  have hlt : SignedZeros a b → a.compare b = .lt := fun h => (compare_of_signedZeros h).1
  have hgt : SignedZeros b a → a.compare b = .gt := fun h => (compare_of_signedZeros h).2
  cases hcompare : a.compare b with
  | lt => exact .inl ⟨rfl, fun h => by rw [hgt h] at hcompare; cases hcompare⟩
  | eq =>
    refine .inr (.inl ⟨rfl, fun h => ?_, fun h => ?_⟩)
    · rw [hlt h] at hcompare
      cases hcompare
    · rw [hgt h] at hcompare
      cases hcompare
  | gt => exact .inr (.inr ⟨rfl, fun h => by rw [hlt h] at hcompare; cases hcompare⟩)

/-- Finite numbers are equal if neither is less, or if they are zeros of different signs. -/
theorem beq_iff_compare (ha : a.IsFinite) (hb : b.IsFinite) :
    (a == b) = true ↔ a.compare b = .eq ∨ SignedZeros a b ∨ SignedZeros b a := by
  rcases compare_cases a b with ⟨m, n, rfl, rfl⟩ | ⟨hcompare, hbeq⟩
  · have hsigned (m n : Int64) : ¬SignedZeros (.integer m) (.integer n) :=
      fun h => Decimal.ofInt_ne_negZero m h.1
    rw [or_iff_left (not_or_intro (hsigned m n) (hsigned n m))]
    show (m == n) = true ↔ Ord.compare m.toInt n.toInt = .eq
    rw [Int.compare_eq_eq, Int64.toInt_inj, beq_iff_eq]
  · rw [hbeq, hcompare, Int.compare_eq_eq, Decimal.rank_inj,
      Decimal.beq_iff ha.toFloat hb.toFloat, SignedZeros, SignedZeros,
      and_comm (a := b.toFloat = _)]

/-- Comparing is transitive, even though integers are compared as integers and all else as doubles.
-/
theorem compare_trans (h : a.compare b = .lt) (h' : b.compare c = .lt) : a.compare c = .lt := by
  have hle := rank_le_of_compare h
  have hle' := rank_le_of_compare h'
  -- Two integers at the ends are the case to worry about: they are not compared as doubles, but
  -- with a decimal between them.
  cases a with
  | decimal x =>
    have hlt : Decimal.rank x < Decimal.rank b.toFloat := Int.compare_eq_lt.mp h
    exact Int.compare_eq_lt.mpr (hlt.trans_le hle')
  | integer m =>
    cases c with
    | decimal z =>
      have hlt : Decimal.rank b.toFloat < Decimal.rank z := by
        cases b <;> exact Int.compare_eq_lt.mp h'
      exact Int.compare_eq_lt.mpr (hle.trans_lt hlt)
    | integer n =>
      cases b with
      | integer k =>
        exact Int.compare_eq_lt.mpr ((Int.compare_eq_lt.mp h).trans (Int.compare_eq_lt.mp h'))
      | decimal y =>
        -- A decimal between two integers keeps them apart, however large they are.
        have hlt : Decimal.rank (Float.ofInt m.toInt) < Decimal.rank y := Int.compare_eq_lt.mp h
        have hlt' : Decimal.rank y < Decimal.rank (Float.ofInt n.toInt) := Int.compare_eq_lt.mp h'
        refine Int.compare_eq_lt.mpr (lt_of_not_ge fun hge => ?_)
        have hmono := Decimal.rank_ofInt_mono hge
        omega

/-! ## Equality -/

/-- Equal numbers are equal as doubles. -/
theorem toFloat_beq (ha : a.IsFinite) (h : (a == b) = true) : (a.toFloat == b.toFloat) = true := by
  rcases compare_cases a b with ⟨m, n, rfl, rfl⟩ | ⟨-, hbeq⟩
  · obtain rfl : m = n := eq_of_beq h
    exact (Decimal.beq_iff ha.toFloat ha.toFloat).mpr (.inl rfl)
  · rwa [← hbeq]

/-- Two integers that are converted to equal doubles are converted to the same double. -/
theorem ofInt_eq_of_beq {m n : Int64} (h : (Float.ofInt m.toInt == Float.ofInt n.toInt) = true) :
    Float.ofInt m.toInt = Float.ofInt n.toInt := by
  rcases (Decimal.beq_iff (Decimal.isFinite_ofInt m) (Decimal.isFinite_ofInt n)).mp h with
    h | ⟨h, -⟩ | ⟨-, h⟩
  · exact h
  · exact absurd h (Decimal.ofInt_ne_negZero m)
  · exact absurd h (Decimal.ofInt_ne_negZero n)

/-- A decimal between two conflated integers equals both of them, and they differ. -/
theorem Conflated.not_beq_trans (h : Conflated a b c) :
    (a == b) = true ∧ (b == c) = true ∧ (a == c) = false := by
  obtain ⟨m, n, hne, hsame, rfl, rfl, rfl⟩ := h
  have hself : (Float.ofInt m.toInt == Float.ofInt m.toInt) = true :=
    (Decimal.beq_iff (Decimal.isFinite_ofInt m) (Decimal.isFinite_ofInt m)).mpr (.inl rfl)
  refine ⟨hself, ?_, ?_⟩
  · show (Float.ofInt m.toInt == Float.ofInt n.toInt) = true
    rwa [← hsame]
  · show (m == n) = false
    exact beq_eq_false_iff_ne.mpr hne

/-- Equality is transitive unless a decimal conflates two integers. -/
theorem beq_trans (ha : a.IsFinite) (hb : b.IsFinite) (hc : c.IsFinite) (hclear : ¬Conflated a b c)
    (h : (a == b) = true) (h' : (b == c) = true) : (a == c) = true := by
  have hfloat : (a.toFloat == c.toFloat) = true :=
    PartialEquivBEq.trans (toFloat_beq ha h) (toFloat_beq hb h')
  rcases compare_cases a c with ⟨m, n, rfl, rfl⟩ | ⟨-, hbeq⟩
  · have hsame : Float.ofInt m.toInt = Float.ofInt n.toInt := ofInt_eq_of_beq hfloat
    show (m == n) = true
    rw [beq_iff_eq]
    cases b with
    | integer k =>
      have hmk : m = k := eq_of_beq h
      have hkn : k = n := eq_of_beq h'
      exact hmk.trans hkn
    | decimal y =>
      -- Two different integers are equal to one decimal only if both are converted to it.
      by_contra hne
      rcases (Decimal.beq_iff ha.toFloat hb).mp h with hy | ⟨hzero, -⟩ | ⟨hzero, -⟩
      · exact hclear ⟨m, n, hne, hsame, rfl, congrArg decimal hy.symm, rfl⟩
      · exact Decimal.ofInt_ne_negZero m hzero
      · have hm : m = 0 := Decimal.eq_zero_of_ofInt hzero
        have hn : n = 0 := Decimal.eq_zero_of_ofInt (hsame.symm.trans hzero)
        exact hne (hm.trans hn.symm)
  · rwa [hbeq]

/-- Equality is transitive exactly where no decimal conflates two integers. -/
theorem beq_trans_iff (ha : a.IsFinite) (hb : b.IsFinite) (hc : c.IsFinite) :
    ((a == b) = true → (b == c) = true → (a == c) = true) ↔ ¬Conflated a b c := by
  constructor
  · intro h hconflated
    obtain ⟨hab, hbc, hac⟩ := hconflated.not_beq_trans
    rw [h hab hbc] at hac
    cases hac
  · exact fun hclear => beq_trans ha hb hc hclear

/-- Only integers of more than 53 digits are conflated. -/
theorem Conflated.large {m n : Int64} (h : Conflated (.integer m) b (.integer n)) :
    2 ^ 53 ≤ m.toInt.natAbs ∧ 2 ^ 53 ≤ n.toInt.natAbs := by
  obtain ⟨m', n', hne, hsame, hm, -, hn⟩ := h
  cases hm
  cases hn
  constructor
  · exact Nat.le_of_not_lt fun hlt => hne (Decimal.eq_of_ofInt_eq hlt hsame)
  · exact Nat.le_of_not_lt fun hlt => hne (Decimal.eq_of_ofInt_eq hlt hsame.symm).symm

end Number

/-! ## Comparing expressions -/

namespace Expr

variable {context : Context} {location : String}

/-- The comparison of two expressions evaluates to true. -/
def Holds (context : Context) (location : String) (op : BinaryOp) (l r : Expr) : Prop :=
  evaluate context location (.binary op l r) = .ok (.bool true)

/-- One of three statements is true, and the others are not. -/
def ExactlyOne (p q r : Prop) : Prop :=
  p ∧ ¬q ∧ ¬r ∨ ¬p ∧ q ∧ ¬r ∨ ¬p ∧ ¬q ∧ r

/-- How the comparisons of expressions with the values `a`, `b` and `c` are related. -/
structure ComparisonLaws (context : Context) (location : String) (l m r : Expr)
    (a b c : Number) : Prop where
  evaluated (op : BinaryOp) : (op = .equal ∨ ∃ order, op = .order order) →
    ∃ v : Bool, evaluate context location (.binary op l m) = .ok (.bool v)
  trichotomy :
    ExactlyOne (Holds context location (.order .less) l m) (Holds context location .equal l m)
        (Holds context location (.order .greater) l m) ↔
      ¬(Number.SignedZeros a b ∨ Number.SignedZeros b a)
  lessEqual :
    (Holds context location (.order .lessEqual) l m ↔
        Holds context location (.order .less) l m ∨ Holds context location .equal l m) ↔
      ¬Number.SignedZeros b a
  greaterEqual :
    (Holds context location (.order .greaterEqual) l m ↔
        Holds context location (.order .greater) l m ∨ Holds context location .equal l m) ↔
      ¬Number.SignedZeros a b
  less_trans : Holds context location (.order .less) l m →
    Holds context location (.order .less) m r → Holds context location (.order .less) l r
  equal_trans :
    (Holds context location .equal l m → Holds context location .equal m r →
        Holds context location .equal l r) ↔
      ¬Number.Conflated a b c

variable {l m r : Expr} {a b c : Number}

/-- A comparison of two numbers has a truth value, that of their order. -/
theorem evaluate_order (op : OrderOp) (hl : evaluate context location l = .ok (.number a))
    (hm : evaluate context location m = .ok (.number b)) :
    evaluate context location (.binary (.order op) l m) = .ok (.bool (op.holds (a.compare b))) := by
  rw [evaluate, hl, hm]
  rfl

/-- An equation of two numbers has a truth value, that of their equality. -/
theorem evaluate_equal (hl : evaluate context location l = .ok (.number a))
    (hm : evaluate context location m = .ok (.number b)) :
    evaluate context location (.binary .equal l m) = .ok (.bool (a == b)) := by
  rw [evaluate, hl, hm]
  rfl

/-- A comparison holds if the numbers are in that order. -/
theorem holds_order (op : OrderOp) (hl : evaluate context location l = .ok (.number a))
    (hm : evaluate context location m = .ok (.number b)) :
    Holds context location (.order op) l m ↔ op.holds (a.compare b) = true := by
  rw [Holds, evaluate_order op hl hm]
  simp

/-- An equation holds if the numbers are equal. -/
theorem holds_equal (hl : evaluate context location l = .ok (.number a))
    (hm : evaluate context location m = .ok (.number b)) :
    Holds context location .equal l m ↔ (a == b) = true := by
  rw [Holds, evaluate_equal hl hm]
  simp

/-- Finite numbers are totally ordered by the comparisons, but for zeros of different signs, and
but for decimals that conflate two integers. -/
theorem evaluate_comparisons (hl : evaluate context location l = .ok (.number a))
    (hm : evaluate context location m = .ok (.number b))
    (hr : evaluate context location r = .ok (.number c)) (ha : a.IsFinite) (hb : b.IsFinite)
    (hc : c.IsFinite) : ComparisonLaws context location l m r a b c := by
  have hcases := Number.compare_signedZeros a b
  constructor
  case evaluated =>
    rintro op (rfl | ⟨order, rfl⟩)
    · exact ⟨_, evaluate_equal hl hm⟩
    · exact ⟨_, evaluate_order order hl hm⟩
  case trichotomy =>
    rw [holds_order _ hl hm, holds_order _ hl hm, holds_equal hl hm, Number.beq_iff_compare ha hb]
    rcases hcases with ⟨h, hba⟩ | ⟨h, hab, hba⟩ | ⟨h, hab⟩ <;>
      simp [ExactlyOne, OrderOp.holds, *]
  case lessEqual =>
    rw [holds_order _ hl hm, holds_order _ hl hm, holds_equal hl hm, Number.beq_iff_compare ha hb]
    rcases hcases with ⟨h, hba⟩ | ⟨h, hab, hba⟩ | ⟨h, hab⟩ <;> simp [OrderOp.holds, *]
  case greaterEqual =>
    rw [holds_order _ hl hm, holds_order _ hl hm, holds_equal hl hm, Number.beq_iff_compare ha hb]
    rcases hcases with ⟨h, hba⟩ | ⟨h, hab, hba⟩ | ⟨h, hab⟩ <;> simp [OrderOp.holds, *]
  case less_trans =>
    rw [holds_order _ hl hm, holds_order _ hm hr, holds_order _ hl hr]
    simp only [OrderOp.holds, Ordering.isLT_iff_eq_lt]
    exact Number.compare_trans
  case equal_trans =>
    rw [holds_equal hl hm, holds_equal hm hr, holds_equal hl hr]
    exact Number.beq_trans_iff ha hb hc

/-- An integer, a decimal and an integer. -/
theorem comparisons_mixed :
    ComparisonLaws ⟨[], []⟩ "test" (.literal (.number (.integer 1)))
      (.literal (.number (.decimal 1.5))) (.literal (.number (.integer 2)))
      (.integer 1) (.decimal 1.5) (.integer 2) :=
  evaluate_comparisons (by rw [evaluate]) (by rw [evaluate]) (by rw [evaluate]) trivial
    (show Float.isFinite 1.5 = true by decide +kernel) trivial

/-- A negative zero is less than a positive one and equal to it, and `2 ^ 53` as a decimal is equal
to the integers `2 ^ 53` and `2 ^ 53 + 1`, which are not equal. -/
theorem comparisons_inconsistent :
    let zero : Expr := .literal (.number (.decimal 0.0))
    let power : Expr := .literal (.number (.integer 9007199254740992))
    let decimal : Expr := .literal (.number (.decimal 9007199254740992.0))
    let next : Expr := .literal (.number (.integer 9007199254740993))
    (Holds ⟨[], []⟩ "test" (.order .less) (.unary .neg zero) zero ∧
        Holds ⟨[], []⟩ "test" .equal (.unary .neg zero) zero) ∧
      Holds ⟨[], []⟩ "test" .equal next decimal ∧ Holds ⟨[], []⟩ "test" .equal decimal power ∧
        ¬Holds ⟨[], []⟩ "test" .equal next power := by
  intro zero power decimal next
  have hliteral (n : Number) :
      evaluate ⟨[], []⟩ "test" (.literal (.number n)) = .ok (.number n) := by
    rw [evaluate]
  have hnegated :
      evaluate ⟨[], []⟩ "test" (.unary .neg zero) = .ok (.number (.decimal (-0.0))) := by
    rw [evaluate, hliteral]
    rfl
  refine ⟨⟨?_, ?_⟩, ?_, ?_, ?_⟩
  · rw [holds_order _ hnegated (hliteral _)]
    decide +kernel
  · rw [holds_equal hnegated (hliteral _)]
    decide +kernel
  · rw [holds_equal (hliteral _) (hliteral _)]
    decide +kernel
  · rw [holds_equal (hliteral _) (hliteral _)]
    decide +kernel
  · rw [holds_equal (hliteral _) (hliteral _)]
    decide +kernel

end Expr

end Deployment
