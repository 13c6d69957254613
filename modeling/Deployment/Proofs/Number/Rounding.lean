import Deployment.Number
import Mathlib

/-! # Rounding to doubles

The positive doubles stand in a row, and the bits of a double are its place in the row. For a double
with all 53 digits, the place says everything (`ofPlace`): which digits it has behind the first, and
which exponent. A number that is neither too large nor too small for 53 digits is rounded to the
place that its exponent and its rounded digits add up to (`round_eq_ofPlace`); a carry into a 54th
digit is a carry into the exponent. As the rounded digits are monotone in the number
(`rounded_mono`), so is the place.
-/

namespace Deployment.Decimal

open Float.Model (UnpackedFloat Format)
open Float.Model.UnpackedFloat (Sign ExtendedMantissa Accuracy)

/-! ## Digits that are cut off -/

/-- A mantissa with the two binary digits behind it, of which the second only says whether anything
but zeros follows. -/
def digits (m : ExtendedMantissa) : Nat :=
  4 * m.mantissa + 2 * m.roundBit.toNat + m.stickyBit.toNat

/-- Without the two digits behind it, the mantissa is left. -/
theorem digits_div (m : ExtendedMantissa) : digits m / 4 = m.mantissa := by
  obtain ⟨mantissa, roundBit, stickyBit⟩ := m
  cases roundBit <;> cases stickyBit <;> simp [digits] <;> omega

/-- The two digits behind the mantissa. -/
theorem digits_mod (m : ExtendedMantissa) :
    digits m % 4 = 2 * m.roundBit.toNat + m.stickyBit.toNat := by
  obtain ⟨mantissa, roundBit, stickyBit⟩ := m
  cases roundBit <;> cases stickyBit <;>
    simp only [digits, Bool.toNat_true, Bool.toNat_false] <;> omega

/-- A shift by one place keeps whether anything but zeros was cut off. -/
theorem digits_shiftRightOne (m : ExtendedMantissa) :
    digits m.shiftRightOne = 2 * (digits m / 4) + min 1 (digits m % 4) := by
  rw [digits_div, digits_mod]
  obtain ⟨mantissa, roundBit, stickyBit⟩ := m
  rcases Nat.mod_two_eq_zero_or_one mantissa with h | h <;> cases roundBit <;> cases stickyBit <;>
    simp [digits, ExtendedMantissa.shiftRightOne, h] <;> omega

/-- Rounding is to the nearest, and to the even one of two that are equally near. -/
theorem roundedMantissa_eq (m : ExtendedMantissa) :
    m.roundedMantissa = digits m / 4 + (digits m % 4 + digits m / 4 % 2) / 3 := by
  rw [digits_div, digits_mod]
  obtain ⟨mantissa, roundBit, stickyBit⟩ := m
  rcases Nat.mod_two_eq_zero_or_one mantissa with h | h <;> cases roundBit <;> cases stickyBit <;>
    simp [ExtendedMantissa.roundedMantissa, ExtendedMantissa.accuracy,
      Accuracy.roundToNearestEven, h]

/-- What was left out of a number changes only the two digits behind it. -/
theorem digits_ofMantissaAndAccuracy_bounds (m : Nat) (a : Accuracy) :
    4 * m ≤ digits (ExtendedMantissa.ofMantissaAndAccuracy m a) ∧
      digits (ExtendedMantissa.ofMantissaAndAccuracy m a) < 4 * (m + 1) := by
  unfold ExtendedMantissa.ofMantissaAndAccuracy
  split <;> simp [digits] <;> omega

theorem digits_shiftRight_succ (m : ExtendedMantissa) (n : Nat) :
    digits (m >>> (n + 1)) = 2 * (digits (m >>> n) / 4) + min 1 (digits (m >>> n) % 4) :=
  digits_shiftRightOne _

/-- Cutting off digits keeps the order. -/
theorem digits_shiftRight_mono {m m' : ExtendedMantissa} (h : digits m ≤ digits m') (n : Nat) :
    digits (m >>> n) ≤ digits (m' >>> n) := by
  induction n with
  | zero => exact h
  | succ n ih =>
    rw [digits_shiftRight_succ, digits_shiftRight_succ]
    omega

/-- Nothing is lost if only zeros are cut off. -/
theorem digits_shiftRight_exact {m : ExtendedMantissa} {k n : Nat}
    (h : digits m = 4 * (k * 2 ^ n)) : digits (m >>> n) = 4 * k := by
  induction n generalizing k with
  | zero => rwa [Nat.pow_zero, Nat.mul_one] at h
  | succ n ih =>
    have heven : digits (m >>> n) = 4 * (k * 2) := ih (by rw [h, Nat.pow_succ']; ring)
    rw [digits_shiftRight_succ, heven]
    omega

/-- The number `m`, of which the accuracy `a` says what it left out, rounded to its digits without
the last `n`. -/
def rounded (m : Nat) (a : Accuracy) (n : Nat) : Nat :=
  (ExtendedMantissa.ofMantissaAndAccuracy m a >>> n).roundedMantissa

/-- Rounding keeps the order of digits. -/
theorem rounded_le_rounded {m m' : Nat} {a a' : Accuracy}
    (h : digits (ExtendedMantissa.ofMantissaAndAccuracy m a) ≤
      digits (ExtendedMantissa.ofMantissaAndAccuracy m' a')) (n : Nat) :
    rounded m a n ≤ rounded m' a' n := by
  have hshifted := digits_shiftRight_mono h n
  rw [rounded, rounded, roundedMantissa_eq, roundedMantissa_eq]
  rcases (Nat.div_le_div_right (c := 4) hshifted).lt_or_eq with hlt | heq
  · omega
  · omega

theorem digits_exact (m : Nat) :
    digits (ExtendedMantissa.ofMantissaAndAccuracy m .exact) = 4 * m := by
  simp [digits, ExtendedMantissa.ofMantissaAndAccuracy]

/-- Rounding keeps the order of numbers. -/
theorem rounded_mono {m m' : Nat} (h : m ≤ m') (n : Nat) :
    rounded m .exact n ≤ rounded m' .exact n :=
  rounded_le_rounded (by rw [digits_exact, digits_exact]; omega) n

/-- Rounding changes nothing if only zeros are cut off. -/
theorem rounded_exact (k n : Nat) : rounded (k * 2 ^ n) .exact n = k := by
  rw [rounded, roundedMantissa_eq, digits_shiftRight_exact (digits_exact _)]
  omega

theorem rounded_zero (m : Nat) : rounded m .exact 0 = m := by
  simpa using rounded_exact m 0

/-- Rounding does not go below a number that needs no rounding. -/
theorem le_rounded {m n k : Nat} (h : k * 2 ^ n ≤ m) (a : Accuracy) : k ≤ rounded m a n := by
  have hdigits := digits_ofMantissaAndAccuracy_bounds m a
  rw [← rounded_exact k n]
  exact rounded_le_rounded (by rw [digits_exact]; omega) n

/-- Rounding does not go above a number that needs no rounding. -/
theorem rounded_le {m n k : Nat} (h : m < k * 2 ^ n) (a : Accuracy) : rounded m a n ≤ k := by
  have hdigits := digits_ofMantissaAndAccuracy_bounds m a
  rw [← rounded_exact k n]
  exact rounded_le_rounded (by rw [digits_exact]; omega) n

/-! ## Places -/

/-- The double of a sign at a place in the row of the doubles of that sign, for the places of
doubles with all 53 digits. -/
def ofPlace (s : Sign) (p : Nat) : UnpackedFloat :=
  .finite s (2 ^ 52 + p % 2 ^ 52) (p / 2 ^ 52 - 1075) (by positivity)

/-- A double with all 53 digits is the one at the place that its exponent and its digits add up to.
-/
theorem finite_eq_ofPlace (s : Sign) {m : Nat} {e : Int} (h : 0 < m) {p : Nat}
    (hlow : 2 ^ 52 ≤ m) (hhigh : m < 2 ^ 53) (hp : (p : Int) = (e + 1074) * 2 ^ 52 + m) :
    UnpackedFloat.finite s m e h = ofPlace s p := by
  obtain rfl : m = 2 ^ 52 + p % 2 ^ 52 := by omega
  obtain rfl : e = p / 2 ^ 52 - 1075 := by omega
  rfl

/-- The bits of a double are its sign, its exponent and its digits behind the first. -/
theorem toNat_packComponents (s : Sign) (e : BitVec 11) (m : BitVec 52) :
    (UnpackedFloat.packComponents .binary64 s e m).toNat =
      s.toBitVec.toNat * 2 ^ 63 + e.toNat * 2 ^ 52 + m.toNat := by
  have he := e.isLt
  have hm := m.isLt
  unfold UnpackedFloat.packComponents
  rw [BitVec.toNat_append, BitVec.toNat_append, ← Nat.shiftLeft_add_eq_or_of_lt hm,
    ← Nat.shiftLeft_add_eq_or_of_lt he]
  simp only [Nat.shiftLeft_eq]
  omega

/-- The double at a place has all 53 digits. -/
theorem log2_mantissa (p : Nat) : (2 ^ 52 + p % 2 ^ 52).log2 = 52 := by
  rw [Nat.log2_eq_iff (by positivity)]
  omega

/-- The bits of a double with all digits are its place. -/
theorem pack_ofPlace (s : Sign) {p : Nat} (hlow : 2 ^ 52 ≤ p) (hhigh : p < 2047 * 2 ^ 52) :
    (ofPlace s p).pack .binary64 = UnpackedFloat.packComponents .binary64 s
      (BitVec.ofNat 11 (p / 2 ^ 52)) (BitVec.ofNat 52 (p % 2 ^ 52)) := by
  have hexponent :
      ((p / 2 ^ 52 : Nat) - 1075 + (1023 : Nat) + (52 : Nat) : Int).toNat = p / 2 ^ 52 := by
    omega
  have hmantissa : BitVec.ofNat 52 (2 ^ 52 + p % 2 ^ 52) = BitVec.ofNat 52 (p % 2 ^ 52) := by
    apply BitVec.eq_of_toNat_eq
    simp
  show (if 2 ^ 11 ≤ ((p / 2 ^ 52 : Nat) - 1075 + (1023 : Nat) + (52 : Nat) : Int).toNat + 1 then _
    else if (2 ^ 52 + p % 2 ^ 52).log2 + 1 = 53 then
      UnpackedFloat.packComponents .binary64 s
        (BitVec.ofNat 11 ((p / 2 ^ 52 : Nat) - 1075 + (1023 : Nat) + (52 : Nat) : Int).toNat)
        (BitVec.ofNat 52 (2 ^ 52 + p % 2 ^ 52))
    else _) = _
  rw [hexponent, log2_mantissa, if_neg (by omega), if_pos rfl, hmantissa]

/-- Behind the sign, the bits of a double are its place as a number. -/
theorem toNat_pack_ofPlace (s : Sign) {p : Nat} (hlow : 2 ^ 52 ≤ p) (hhigh : p < 2047 * 2 ^ 52) :
    ((ofPlace s p).pack .binary64).toNat = s.toBitVec.toNat * 2 ^ 63 + p := by
  rw [pack_ofPlace s hlow hhigh, toNat_packComponents, BitVec.toNat_ofNat, BitVec.toNat_ofNat]
  omega

/-- Unless its exponent is the smallest or the largest, a bit pattern is a double with all 53
digits. -/
theorem unpack_packComponents (s : Sign) {e : BitVec 11} (m : BitVec 52) (hzero : e ≠ 0#11)
    (hones : e ≠ -1#11) : ∃ h,
      UnpackedFloat.unpack .binary64 (UnpackedFloat.packComponents .binary64 s e m) =
        .finite s (2 ^ 52 + m.toNat) (e.toNat - 1075) h := by
  have hmantissa : (1#1 ++ m).toNat = 2 ^ 52 + m.toNat := by
    rw [BitVec.toNat_append, ← Nat.shiftLeft_add_eq_or_of_lt m.isLt]
    rfl
  unfold UnpackedFloat.unpack
  simp only [UnpackedFloat.unpackExponent_packComponents,
    UnpackedFloat.unpackMantissa_packComponents, UnpackedFloat.unpackSign_packComponents,
    Sign.ofBitVec_toBitVec]
  rw [if_neg hones, if_neg hzero]
  simp only [hmantissa]
  exact ⟨by omega, rfl⟩

/-- A double with all digits keeps its place when it is stored. -/
theorem unpack_pack_ofPlace (s : Sign) {p : Nat} (hlow : 2 ^ 52 ≤ p) (hhigh : p < 2047 * 2 ^ 52) :
    UnpackedFloat.unpack .binary64 ((ofPlace s p).pack .binary64) = ofPlace s p := by
  -- The place is within the bits of a double, so nothing of it is cut off.
  have hexponent : (BitVec.ofNat 11 (p / 2 ^ 52)).toNat = p / 2 ^ 52 := by
    rw [BitVec.toNat_ofNat]
    omega
  have hmantissa : (BitVec.ofNat 52 (p % 2 ^ 52)).toNat = p % 2 ^ 52 := by
    rw [BitVec.toNat_ofNat, Nat.mod_mod]
  obtain ⟨h, hunpack⟩ := unpack_packComponents s (e := BitVec.ofNat 11 (p / 2 ^ 52))
    (BitVec.ofNat 52 (p % 2 ^ 52))
    -- Neither end of the exponents is reached, so the pattern is that of an ordinary double.
    (fun h => by
      have := congrArg BitVec.toNat h
      rw [hexponent, BitVec.toNat_ofNat] at this
      omega)
    (fun h => by
      have := congrArg BitVec.toNat h
      rw [hexponent, show (-1#11).toNat = 2047 from rfl] at this
      omega)
  rw [pack_ofPlace s hlow hhigh, hunpack]
  simp only [hexponent, hmantissa]
  rfl

/-! ## Rounding to a place -/

/-- Shifted digits are divided by a power of two. -/
theorem mantissa_shiftRight (m : ExtendedMantissa) (n : Nat) :
    (m >>> n).mantissa = m.mantissa / 2 ^ n := by
  show (n.repeat ExtendedMantissa.shiftRightOne m).mantissa = _
  induction n with
  | zero => simp [Nat.repeat]
  | succ n ih =>
    rw [Nat.repeat, ExtendedMantissa.shiftRightOne, ih, Nat.div_div_eq_div_mul, Nat.pow_succ]

/-- To come down to 53 digits, those behind them are cut off. -/
theorem shiftToTargetExponent_eq {m n : Nat} {e : Int} (hm : m.log2 = 52 + n)
    (he : -1074 ≤ e + n) (a : Accuracy) :
    UnpackedFloat.shiftToTargetExponent .binary64 m e a =
      (ExtendedMantissa.ofMantissaAndAccuracy m a >>> n, e + n) := by
  have htarget : (max (m.log2 + 1 + e - (53 : Nat)) (-1074) - e : Int).toNat = n := by omega
  show (ExtendedMantissa.ofMantissaAndAccuracy m a >>>
      (max (m.log2 + 1 + e - (53 : Nat)) (-1074) - e : Int).toNat,
    e + ((max (m.log2 + 1 + e - (53 : Nat)) (-1074) - e : Int).toNat : Int)) = _
  rw [htarget]

/-- Rounded to 53 digits, a number has so many of them or is the next power of two. -/
theorem rounded_bounds {m n : Nat} (hm : m.log2 = 52 + n) (a : Accuracy) :
    2 ^ 52 ≤ rounded m a n ∧ rounded m a n ≤ 2 ^ 53 := by
  have hne : m ≠ 0 := by
    rintro rfl
    simp at hm
    omega
  obtain ⟨hlow, hhigh⟩ := (Nat.log2_eq_iff hne).mp hm
  constructor
  · exact le_rounded (by rwa [← Nat.pow_add]) a
  · exact rounded_le (by rwa [← Nat.pow_add, show 53 + n = 52 + n + 1 by omega]) a

/-- Rounding cuts off digits twice. The second time it only does something if there was a carry into
a 54th digit. -/
theorem round_eq_finite (s : Sign) {m n j : Nat} {e : Int} (a : Accuracy) (hm : m.log2 = 52 + n)
    (he : -1074 ≤ e + n) (hj : (rounded m a n).log2 = 52 + j) (hpos : 0 < rounded m a n / 2 ^ j) :
    UnpackedFloat.roundWithAccuracy .binary64 s m e a =
      .finite s (rounded m a n / 2 ^ j) (e + n + j) hpos := by
  have hfirst := shiftToTargetExponent_eq hm he a
  have hsecond := shiftToTargetExponent_eq hj (e := e + n) (by omega) .exact
  have hrounded :
      (ExtendedMantissa.ofMantissaAndAccuracy m a >>> n).roundedMantissa = rounded m a n :=
    rfl
  have hmantissa :
      (ExtendedMantissa.ofMantissaAndAccuracy (rounded m a n) .exact >>> j).mantissa =
        rounded m a n / 2 ^ j :=
    mantissa_shiftRight _ _
  unfold UnpackedFloat.roundWithAccuracy
  simp only [hfirst, hrounded, hsecond, hmantissa]
  rw [dif_neg hpos.ne']

/-- A number in the range of 53 digits is rounded to the place that its exponent and its rounded
digits add up to. -/
theorem round_eq_ofPlace (s : Sign) {m n q : Nat} {e : Int} (a : Accuracy) (hm : m.log2 = 52 + n)
    (hq : e + n + 1074 = q) :
    UnpackedFloat.roundWithAccuracy .binary64 s m e a = ofPlace s (q * 2 ^ 52 + rounded m a n) := by
  obtain ⟨hle, hge⟩ := rounded_bounds hm a
  rcases hge.lt_or_eq with hlt | hcarry
  · have hj : (rounded m a n).log2 = 52 + 0 := (Nat.log2_eq_iff (by omega)).mpr ⟨hle, hlt⟩
    rw [round_eq_finite s a hm (by omega) hj (by omega)]
    exact finite_eq_ofPlace s _ (by omega) (by omega) (by omega)
  · have hj : (rounded m a n).log2 = 52 + 1 := by
      rw [hcarry]
      decide
    rw [round_eq_finite s a hm (by omega) hj (by omega)]
    exact finite_eq_ofPlace s _ (by omega) (by omega) (by omega)

end Deployment.Decimal
