import Deployment.Proofs.Number.Rounding

/-! # Integers as doubles

An integer that takes part in a comparison or a division of doubles is converted to the nearest
double. The conversion is computed here to the place of the result (`ofNat_eq_ofPlace`), from which
all that is needed of it follows: it keeps the order of integers, though not always strictly
(`rank_ofInt_mono`), its results are finite, and so are their quotients (`isFinite_div_ofInt`).
-/

namespace Deployment

namespace Decimal

open Float.Model (UnpackedFloat Format)
open Float.Model.UnpackedFloat (Sign ExtendedMantissa Accuracy)

/-! ## The place of a natural number -/

/-- The place of the double nearest to a positive number. -/
def placeOf (n : Nat) : Nat :=
  (n.log2 + 1022) * 2 ^ 52 + rounded (n * 2 ^ 53) .exact (n.log2 + 1)

theorem placeOf_pos (n : Nat) : 0 < placeOf n := by
  unfold placeOf
  positivity

/-- A power of two as a factor adds to the number of digits. -/
theorem log2_mul_two_pow {n : Nat} (h : 0 < n) (k : Nat) : (n * 2 ^ k).log2 = n.log2 + k := by
  rw [Nat.log2_eq_iff (by positivity), Nat.pow_add, show n.log2 + k + 1 = n.log2 + 1 + k by omega,
    Nat.pow_add (n := k)]
  have hpow := Nat.two_pow_pos k
  exact ⟨Nat.mul_le_mul_right _ (Nat.log2_self_le h.ne'),
    Nat.mul_lt_mul_of_pos_right Nat.lt_log2_self hpow⟩

/-- The number of digits says between which places a number lies. -/
theorem placeOf_bounds {n : Nat} (h : 0 < n) :
    (n.log2 + 1023) * 2 ^ 52 ≤ placeOf n ∧ placeOf n ≤ (n.log2 + 1024) * 2 ^ 52 := by
  have hlog : (n * 2 ^ 53).log2 = 52 + (n.log2 + 1) := by
    rw [log2_mul_two_pow h]
    omega
  obtain ⟨hle, hge⟩ := rounded_bounds hlog .exact
  unfold placeOf
  constructor <;> linarith

/-- A larger number has no fewer digits. -/
theorem log2_mono {m n : Nat} (h : m ≤ n) : m.log2 ≤ n.log2 := by
  rw [Nat.log2_eq_log_two, Nat.log2_eq_log_two]
  exact Nat.log_mono_right h

/-- Places keep the order of numbers. -/
theorem placeOf_mono {m n : Nat} (hm : 0 < m) (h : m ≤ n) : placeOf m ≤ placeOf n := by
  rcases (log2_mono h).lt_or_eq with hlt | heq
  · have hupper := (placeOf_bounds hm).2
    have hlower := (placeOf_bounds (hm.trans_le h)).1
    omega
  · have hdigits := rounded_mono (Nat.mul_le_mul_right (2 ^ 53) h) (n.log2 + 1)
    unfold placeOf
    rw [heq]
    omega

/-- A number of at most 53 digits keeps all of them. -/
theorem rounded_of_log2_lt {n : Nat} (h : n.log2 < 53) :
    rounded (n * 2 ^ 53) .exact (n.log2 + 1) = n * 2 ^ (52 - n.log2) := by
  rw [← rounded_exact (n * 2 ^ (52 - n.log2)) (n.log2 + 1), Nat.mul_assoc, ← Nat.pow_add]
  congr 3
  omega

/-- Behind a number of at most 53 digits comes no other number at its place. -/
theorem placeOf_lt_placeOf {m n : Nat} (hm : 0 < m) (h : m < n) (hsmall : m < 2 ^ 53) :
    placeOf m < placeOf n := by
  have hlog53 : m.log2 < 53 := (Nat.log2_lt hm.ne').mpr hsmall
  have hdigits := rounded_of_log2_lt hlog53
  -- A number with more digits has a larger exponent. With equally many, the digits themselves
  -- decide.
  rcases (log2_mono h.le).lt_or_eq with hlt | heq
  · have hcarry : m * 2 ^ (52 - m.log2) < 2 ^ 53 := by
      calc m * 2 ^ (52 - m.log2) < 2 ^ (m.log2 + 1) * 2 ^ (52 - m.log2) :=
            Nat.mul_lt_mul_of_pos_right Nat.lt_log2_self (Nat.two_pow_pos _)
        _ = 2 ^ 53 := by
            rw [← Nat.pow_add]
            congr 1
            omega
    have hlower := (placeOf_bounds (hm.trans h)).1
    rw [placeOf, hdigits]
    omega
  · have hmore : m * 2 ^ (52 - n.log2) < n * 2 ^ (52 - n.log2) :=
      Nat.mul_lt_mul_of_pos_right h (Nat.two_pow_pos _)
    rw [heq] at hdigits hlog53
    rw [placeOf, placeOf, heq, hdigits, rounded_of_log2_lt hlog53]
    omega

/-! ## The conversion -/

/-- A number of at most 53 digits is converted exactly, to its place. -/
theorem ofUInt64_eq_ofPlace {n : UInt64} (h : 0 < n.toNat) (h' : n.toNat < 2 ^ 53) :
    UnpackedFloat.ofUInt64 .binary64 n = ofPlace .positive (placeOf n.toNat) := by
  have hcompare : compare (n.toNat : Int) 0 = .gt := Int.compare_eq_gt.mpr (by omega)
  have hlog : n.toNat.log2 < 53 := (Nat.log2_lt h.ne').mpr h'
  unfold UnpackedFloat.ofUInt64 UnpackedFloat.ofNat UnpackedFloat.ofInt UnpackedFloat.normalize
  rw [hcompare]
  generalize n.toNat = k at h hlog ⊢
  have hshift : (0 - max ((k.log2 : Int) + 1 + 0 - (53 : Nat)) (-1074)).toNat = 52 - k.log2 := by
    omega
  show UnpackedFloat.roundWithAccuracy .binary64 .positive
    (k <<< (0 - max ((k.log2 : Int) + 1 + 0 - (53 : Nat)) (-1074)).toNat)
    (0 - ((0 - max ((k.log2 : Int) + 1 + 0 - (53 : Nat)) (-1074)).toNat : Int)) .exact = _
  rw [hshift, Nat.shiftLeft_eq, placeOf, rounded_of_log2_lt hlog,
    round_eq_ofPlace .positive (n := 0) (q := k.log2 + 1022) .exact ?_ ?_, rounded_zero]
  · rw [log2_mul_two_pow h]
    omega
  · omega

/-- Multiplying by one changes nothing. -/
theorem ofPlace_mul_one (s : Sign) {p : Nat} (h : 2 ^ 52 ≤ p) :
    UnpackedFloat.mul .binary64 (ofPlace s p)
      (.finite .positive (2 ^ 52) (-52) (by decide)) = ofPlace s p := by
  have hsign : s * .positive = s := by
    cases s <;> rfl
  show UnpackedFloat.roundWithAccuracy .binary64 (s * .positive)
    ((2 ^ 52 + p % 2 ^ 52) * 2 ^ 52) ((p / 2 ^ 52 : Nat) - 1075 + -52) .exact = _
  rw [hsign, round_eq_ofPlace s (n := 52) (q := p / 2 ^ 52 - 1) .exact ?_ ?_, rounded_exact]
  · congr 1
    omega
  · rw [log2_mul_two_pow (by positivity), log2_mantissa]
  · omega

/-- A number without an exponent is rounded to its place. -/
theorem ofScientific_eq_ofPlace {n : Nat} (h : 0 < n) :
    UnpackedFloat.ofScientific .binary64 n 0 = ofPlace .positive (placeOf n) := by
  unfold UnpackedFloat.ofScientific
  rw [dif_neg h.ne', if_neg (by decide), if_neg (by simp), if_pos (le_refl 0)]
  show UnpackedFloat.roundWithAccuracy .binary64 .positive (n <<< 53 * 1) (-53 + 0) .exact = _
  rw [Nat.mul_one, Nat.shiftLeft_eq]
  refine round_eq_ofPlace _ _ ?_ ?_
  · rw [log2_mul_two_pow h]
    omega
  · omega

/-- A positive number of 64 bits is converted to its place. -/
theorem ofNat_eq_ofPlace {n : Nat} (h : 0 < n) (h' : n < 2 ^ 64) :
    Float.ofNat n = ⟨Float.Model.pack (ofPlace .positive (placeOf n))⟩ := by
  have hbounds := placeOf_bounds h
  have hlog : n.log2 < 64 := (Nat.log2_lt h.ne').mpr h'
  show Float.ofScientific n false 0 = _
  unfold Float.ofScientific
  -- Small numbers are converted directly and multiplied by one, others go through their decimal
  -- digits.
  split
  · rename_i hsmall
    have htoNat : n.toUInt64.toNat = n := by simp; omega
    have hconverted : n.toUInt64.toFloat.toModel.unpack = ofPlace .positive (placeOf n) := by
      have hplace := ofUInt64_eq_ofPlace (n := n.toUInt64) (by omega) (by omega)
      rw [htoNat] at hplace
      show UnpackedFloat.unpack .binary64
        ((UnpackedFloat.ofUInt64 .binary64 n.toUInt64).pack .binary64) = _
      rw [hplace, unpack_pack_ofPlace _ (by omega) (by omega)]
    have hone : (getElem Float.exactlyRepresentablePowersOfTen 0 (by decide)).toModel.unpack =
        .finite .positive (2 ^ 52) (-52) (by decide) := rfl
    have hproduct := ofPlace_mul_one .positive (p := placeOf n) (by omega)
    rw [← hconverted, ← hone] at hproduct
    rw [← hconverted, ← hproduct]
    rfl
  · rw [← ofScientific_eq_ofPlace h]
    rfl

/-! ## The order of converted integers -/

/-- The order of doubles is that of places, mirrored for the negative ones. -/
theorem rank_pack_ofPlace (s : Sign) {p : Nat} (hlow : 2 ^ 52 ≤ p) (hhigh : p < 2047 * 2 ^ 52) :
    rank ⟨Float.Model.pack (ofPlace s p)⟩ =
      match s with
      | .positive => (p : Int)
      | .negative => -1 - p := by
  have hbits : (Float.toBits ⟨Float.Model.pack (ofPlace s p)⟩).toNat =
      s.toBitVec.toNat * 2 ^ 63 + p :=
    toNat_pack_ofPlace s hlow hhigh
  have hmax : Int64.maxValue.toInt = 2 ^ 63 - 1 := rfl
  rw [rank, hbits, hmax]
  cases s with
  | positive =>
    rw [show Sign.positive.toBitVec.toNat = 0 from rfl, if_pos (by omega)]
    dsimp only
    omega
  | negative =>
    rw [show Sign.negative.toBitVec.toNat = 1 from rfl, if_neg (by omega)]
    dsimp only
    omega

/-- The place of a number of 64 bits is that of a double with all digits. -/
theorem placeOf_lt {n : Nat} (h : 0 < n) (h' : n < 2 ^ 64) :
    1023 * 2 ^ 52 ≤ placeOf n ∧ placeOf n ≤ 1087 * 2 ^ 52 := by
  obtain ⟨hlow, hhigh⟩ := placeOf_bounds h
  have hlog : n.log2 < 64 := (Nat.log2_lt h.ne').mpr h'
  omega

/-- A negative number is converted to the place of its opposite. -/
theorem ofInt_neg_natCast {n : Nat} (h : 0 < n) (h' : n < 2 ^ 64) :
    Float.ofInt (-n) = ⟨Float.Model.pack (ofPlace .negative (placeOf n))⟩ := by
  obtain ⟨k, rfl⟩ : ∃ k, n = k + 1 := ⟨n - 1, by omega⟩
  obtain ⟨hlow, hhigh⟩ := placeOf_lt h h'
  have hunpack := unpack_pack_ofPlace .positive (p := placeOf (k + 1)) (by omega) (by omega)
  show -Float.ofNat (k + 1) = _
  rw [ofNat_eq_ofPlace h h']
  show Float.ofModel (Float.Model.pack (UnpackedFloat.unpack .binary64
    ((ofPlace .positive (placeOf (k + 1))).pack .binary64)).neg) = _
  rw [hunpack]
  rfl

/-- What the integers of 64 bits are converted to: a zero, or a double with all digits. -/
inductive Converted : Int → Float → Prop
  | zero : Converted 0 (Float.ofInt 0)
  | positive {n : Nat} (h : 0 < n) (h' : n < 2 ^ 64) :
      Converted n ⟨Float.Model.pack (ofPlace .positive (placeOf n))⟩
  | negative {n : Nat} (h : 0 < n) (h' : n < 2 ^ 64) :
      Converted (-n) ⟨Float.Model.pack (ofPlace .negative (placeOf n))⟩

/-- Every integer of 64 bits is converted in one of these ways. -/
theorem converted_ofInt (n : Int64) : Converted n.toInt (Float.ofInt n.toInt) := by
  have hlow : -2 ^ 63 ≤ n.toInt := n.le_toInt
  have hhigh : n.toInt < 2 ^ 63 := n.toInt_lt
  generalize n.toInt = k at hlow hhigh
  rcases lt_trichotomy k 0 with hneg | rfl | hpos
  · obtain ⟨j, rfl⟩ : ∃ j : Nat, k = -j := ⟨k.natAbs, by omega⟩
    rw [ofInt_neg_natCast (by omega) (by omega)]
    exact .negative (by omega) (by omega)
  · exact .zero
  · obtain ⟨j, rfl⟩ : ∃ j : Nat, k = j := ⟨k.natAbs, by omega⟩
    have hplace : Float.ofInt j = ⟨Float.Model.pack (ofPlace .positive (placeOf j))⟩ :=
      ofNat_eq_ofPlace (by omega) (by omega)
    rw [hplace]
    exact .positive (by omega) (by omega)

/-! ## The order of converted integers -/

/-- The place of a converted integer in the order of all doubles. -/
theorem Converted.rank_eq {n : Int} {x : Float} (h : Converted n x) :
    (n = 0 ∧ rank x = 0) ∨ (0 < n ∧ rank x = placeOf n.natAbs) ∨
      (n < 0 ∧ rank x = -1 - placeOf n.natAbs) := by
  cases h with
  | zero => exact .inl ⟨rfl, by decide +kernel⟩
  | positive h h' =>
    obtain ⟨hlow, hhigh⟩ := placeOf_lt h h'
    refine .inr (.inl ⟨by omega, ?_⟩)
    rw [rank_pack_ofPlace .positive (by omega) (by omega), Int.natAbs_natCast]
  | negative h h' =>
    obtain ⟨hlow, hhigh⟩ := placeOf_lt h h'
    refine .inr (.inr ⟨by omega, ?_⟩)
    rw [rank_pack_ofPlace .negative (by omega) (by omega), Int.natAbs_neg, Int.natAbs_natCast]

/-- Conversion keeps the order of integers. -/
theorem rank_ofInt_mono {m n : Int64} (h : m.toInt ≤ n.toInt) :
    rank (Float.ofInt m.toInt) ≤ rank (Float.ofInt n.toInt) := by
  rcases (converted_ofInt m).rank_eq with ⟨hm, hrm⟩ | ⟨hm, hrm⟩ | ⟨hm, hrm⟩ <;>
    rcases (converted_ofInt n).rank_eq with ⟨hn, hrn⟩ | ⟨hn, hrn⟩ | ⟨hn, hrn⟩
  case inr.inl.inr.inl =>
    have hplaces := placeOf_mono (m := m.toInt.natAbs) (n := n.toInt.natAbs) (by omega) (by omega)
    omega
  case inr.inr.inr.inr =>
    have hplaces := placeOf_mono (m := n.toInt.natAbs) (n := m.toInt.natAbs) (by omega) (by omega)
    omega
  all_goals omega

/-- Different integers are converted to different doubles, as long as one of them has at most 53
digits. -/
theorem eq_of_ofInt_eq {m n : Int64} (hm : m.toInt.natAbs < 2 ^ 53)
    (h : Float.ofInt m.toInt = Float.ofInt n.toInt) : m = n := by
  have hplaces (hpos : 0 < m.toInt.natAbs) (hpos' : 0 < n.toInt.natAbs)
      (hplace : placeOf m.toInt.natAbs = placeOf n.toInt.natAbs) :
      m.toInt.natAbs = n.toInt.natAbs := by
    rcases lt_trichotomy m.toInt.natAbs n.toInt.natAbs with hlt | heq | hgt
    · exact absurd hplace (placeOf_lt_placeOf hpos hlt hm).ne
    · exact heq
    · exact absurd hplace (placeOf_lt_placeOf hpos' hgt (hgt.trans hm)).ne'
  have hrank := congrArg rank h
  have hpos := placeOf_pos m.toInt.natAbs
  have hpos' := placeOf_pos n.toInt.natAbs
  rw [← Int64.toInt_inj]
  -- Numbers of different signs have ranks of different signs, so two cases remain.
  rcases (converted_ofInt m).rank_eq with ⟨hm, hrm⟩ | ⟨hm, hrm⟩ | ⟨hm, hrm⟩ <;>
    rcases (converted_ofInt n).rank_eq with ⟨hn, hrn⟩ | ⟨hn, hrn⟩ | ⟨hn, hrn⟩ <;>
    rw [hrm, hrn] at hrank
  case inr.inl.inr.inl | inr.inr.inr.inr =>
    have hmagnitude := hplaces (by omega) (by omega) (by omega)
    omega
  all_goals omega

/-! ## Finite doubles -/

/-- A converted integer is zero exactly if the integer is, and else it has all its digits. -/
theorem Converted.unpack_eq {n : Int} {x : Float} (h : Converted n x) :
    (n = 0 ∧ x.toModel.unpack = .zero .positive) ∨
      (n ≠ 0 ∧ ∃ s p, 1023 * 2 ^ 52 ≤ p ∧ p ≤ 1087 * 2 ^ 52 ∧ x.toModel.unpack = ofPlace s p) := by
  cases h with
  | zero => exact .inl ⟨rfl, rfl⟩
  | @positive n h h' =>
    obtain ⟨hlow, hhigh⟩ := placeOf_lt h h'
    have hunpack := unpack_pack_ofPlace .positive (p := placeOf n) (by omega) (by omega)
    exact .inr ⟨by omega, .positive, _, hlow, hhigh, hunpack⟩
  | @negative n h h' =>
    obtain ⟨hlow, hhigh⟩ := placeOf_lt h h'
    have hunpack := unpack_pack_ofPlace .negative (p := placeOf n) (by omega) (by omega)
    exact .inr ⟨by omega, .negative, _, hlow, hhigh, hunpack⟩

/-- No integer of 64 bits is too large for a double. -/
theorem isFinite_ofInt (n : Int64) : (Float.ofInt n.toInt).isFinite = true := by
  show (Float.ofInt n.toInt).toModel.unpack.isFinite = true
  rcases (converted_ofInt n).unpack_eq with ⟨-, h⟩ | ⟨-, s, p, -, -, h⟩ <;> rw [h] <;> rfl

/-- All places are those of finite doubles. -/
theorem isFinite_pack_ofPlace (s : Sign) {p : Nat} (hlow : 2 ^ 52 ≤ p) (hhigh : p < 2047 * 2 ^ 52) :
    Float.isFinite ⟨Float.Model.pack (ofPlace s p)⟩ = true := by
  show (UnpackedFloat.unpack .binary64 ((ofPlace s p).pack .binary64)).isFinite = true
  rw [unpack_pack_ofPlace s hlow hhigh]
  rfl

/-- Doubles with all digits are divided to at least 53 digits, and the remainder says what is left
out. -/
theorem divCore_normal {m m' : Nat} {e e' : Int} (hm : m.log2 = 52) (hm' : m'.log2 = 52)
    (he : -1021 ≤ e - e') :
    UnpackedFloat.divCore .binary64 m e m' e' =
      ((m <<< 53) / m', e - e' - 53, UnpackedFloat.accuracyOfFraction ((m <<< 53) % m') m') := by
  have htarget : Format.binary64.targetExponent
      (Float.Model.totalExponent m e - Float.Model.totalExponent m' e') = e - e' - 53 := by
    simp [Format.targetExponent, Float.Model.totalExponent, hm, hm', Format.mantissaBits,
      Format.minExponent]
    omega
  simp [UnpackedFloat.divCore, htarget]

/-- The first digits of a quotient. -/
theorem log2_quotient {m m' : Nat} (hm : m.log2 = 52) (hm' : m'.log2 = 52) :
    ∃ n ≤ 1, ((m <<< 53) / m').log2 = 52 + n := by
  obtain ⟨hlow, hhigh⟩ := (Nat.log2_eq_iff (by rintro rfl; simp at hm)).mp hm
  obtain ⟨hlow', hhigh'⟩ := (Nat.log2_eq_iff (by rintro rfl; simp at hm')).mp hm'
  have hpos : 0 < m' := by omega
  rw [Nat.shiftLeft_eq]
  have hge : 2 ^ 52 ≤ m * 2 ^ 53 / m' := by
    rw [Nat.le_div_iff_mul_le hpos]
    omega
  have hlt : m * 2 ^ 53 / m' < 2 ^ 54 := by
    rw [Nat.div_lt_iff_lt_mul hpos]
    omega
  rcases Nat.lt_or_ge (m * 2 ^ 53 / m') (2 ^ 53) with h | h
  · exact ⟨0, by omega, (Nat.log2_eq_iff (by omega)).mpr ⟨hge, h⟩⟩
  · exact ⟨1, by omega, (Nat.log2_eq_iff (by omega)).mpr ⟨h, hlt⟩⟩

/-- The quotient of two doubles with all digits is finite if their exponents are near enough. -/
theorem isFinite_div {s s' : Sign} {m m' : Nat} {e e' : Int} (h : 0 < m) (h' : 0 < m')
    (hm : m.log2 = 52) (hm' : m'.log2 = 52) (he : -1021 ≤ e - e') (he' : e - e' ≤ 1022) :
    Float.isFinite ⟨Float.Model.pack
      (UnpackedFloat.div .binary64 (.finite s m e h) (.finite s' m' e' h'))⟩ = true := by
  obtain ⟨n, hn, hlog⟩ := log2_quotient hm hm'
  obtain ⟨q, hq⟩ : ∃ q : Nat, e - e' - 53 + n + 1074 = q := Int.eq_ofNat_of_zero_le (by omega)
  unfold UnpackedFloat.div
  simp only [divCore_normal hm hm' he]
  rw [round_eq_ofPlace _ _ hlog hq]
  obtain ⟨hlow, hhigh⟩ :=
    rounded_bounds hlog (UnpackedFloat.accuracyOfFraction ((m <<< 53) % m') m')
  exact isFinite_pack_ofPlace _ (by omega) (by omega)

/-- The quotient of two integers of 64 bits as doubles is finite. -/
theorem isFinite_div_ofInt (m : Int64) {n : Int64} (h : n ≠ 0) :
    (Float.ofInt m.toInt / Float.ofInt n.toInt).isFinite = true := by
  have hn : n.toInt ≠ 0 := fun hzero => h (Int64.toInt_inj.mp hzero)
  show Float.isFinite ⟨Float.Model.pack (UnpackedFloat.div .binary64
    (Float.ofInt m.toInt).toModel.unpack (Float.ofInt n.toInt).toModel.unpack)⟩ = true
  rcases (converted_ofInt n).unpack_eq with ⟨hzero, -⟩ | ⟨-, s', p', hlow', hhigh', hplace'⟩
  · exact absurd hzero hn
  rw [hplace']
  rcases (converted_ofInt m).unpack_eq with ⟨-, hzero⟩ | ⟨-, s, p, hlow, hhigh, hplace⟩
  · rw [hzero]
    show Float.isFinite ⟨Float.Model.pack (.zero (.positive / s'))⟩ = true
    cases s' <;> decide +kernel
  · rw [hplace]
    exact isFinite_div _ _ (log2_mantissa p) (log2_mantissa p') (by omega) (by omega)

/-! ## Negation -/

/-- The exponent in a bit pattern. -/
abbrev exponentField (b : BitVec 64) : BitVec 11 :=
  @UnpackedFloat.unpackExponent .binary64 b

/-- A bit pattern is a finite double unless its exponent has all bits set. -/
theorem isFinite_unpack_iff (b : BitVec 64) :
    (UnpackedFloat.unpack .binary64 b).isFinite = true ↔ exponentField b ≠ -1#11 := by
  unfold UnpackedFloat.unpack
  dsimp only
  split
  · rename_i hones
    refine iff_of_false ?_ (not_not_intro hones)
    split <;> exact Bool.false_ne_true
  · rename_i hones
    refine iff_of_true ?_ hones
    split
    · split <;> rfl
    · rfl

/-- The sign of a double has no part in its exponent. -/
theorem exponentField_pack_neg (u : UnpackedFloat) :
    exponentField (u.neg.pack .binary64) = exponentField (u.pack .binary64) := by
  have hsigned (s s' : Sign) (e : BitVec 11) (m : BitVec 52) :
      exponentField (UnpackedFloat.packComponents .binary64 s e m) =
        exponentField (UnpackedFloat.packComponents .binary64 s' e m) := by
    rw [exponentField, exponentField, UnpackedFloat.unpackExponent_packComponents,
      UnpackedFloat.unpackExponent_packComponents]
  cases u with
  | notANumber => rfl
  | infinity s => exact hsigned _ _ _ _
  | zero s => exact hsigned _ _ _ _
  | finite s m e h =>
    unfold UnpackedFloat.neg UnpackedFloat.pack
    dsimp only
    split
    · exact hsigned _ _ _ _
    · split <;> exact hsigned _ _ _ _

/-- The opposite of a finite double is finite. -/
theorem isFinite_neg {x : Float} (h : x.isFinite = true) : (-x).isFinite = true := by
  have hpacked : x.toModel.unpack.pack .binary64 = x.toModel.toBits.toBitVec :=
    UnpackedFloat.pack_unpack_of_valid x.toModel.valid
  show (UnpackedFloat.unpack .binary64 (x.toModel.unpack.neg.pack .binary64)).isFinite = true
  rw [isFinite_unpack_iff, exponentField_pack_neg, hpacked]
  exact (isFinite_unpack_iff _).mp h

end Decimal

/-! ## Finite numbers -/

namespace Number

/-- The number is neither infinite nor NaN. -/
def IsFinite : Number → Prop
  | .integer _ => True
  | .decimal x => x.isFinite = true

/-- A finite number is finite as a double. -/
theorem IsFinite.toFloat {n : Number} (h : n.IsFinite) : n.toFloat.isFinite = true := by
  cases n with
  | integer n => exact Decimal.isFinite_ofInt n
  | decimal x => exact h

end Number

end Deployment
