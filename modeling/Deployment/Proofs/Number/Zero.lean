import Deployment.Proofs.Number.Conversion

/-! # Numbers that are zero

Whether a number is zero is asked in two ways: as a double that equals zero, and as a number that
has no fraction and is the integer zero. The answers agree (`Number.isZero_iff`). For a decimal both
look at the same bits, the exponent and the mantissa without the sign. An integer of 64 bits is
converted to the nearest double first, which has all digits and so is not zero, unless the integer
is (`ofInt_beq_zero_iff`).
-/

namespace Deployment

namespace Decimal

open Float.Model (UnpackedFloat)
open Float.Model.UnpackedFloat (Sign)

/-! ## Doubles that are not zero -/

/-- The mantissa in a bit pattern, without the first digit of most doubles, which is not written. -/
abbrev mantissaField (b : BitVec 64) : BitVec 52 :=
  @UnpackedFloat.unpackMantissa .binary64 b

/-- An unpacked double that is not zero, and that packing does not make zero either. -/
inductive Nonzero : UnpackedFloat → Prop
  | notANumber : Nonzero .notANumber
  | infinity (s : Sign) : Nonzero (.infinity s)
  | finite (s : Sign) (m : Nat) (e : Int) (h : 0 < m) (hm : m < 2 ^ 53) (he : -1074 ≤ e) :
      Nonzero (.finite s m e h)

/-- A bit pattern without exponent and mantissa is a zero, and every other one is not. -/
theorem nonzero_unpack_iff (b : BitVec 64) : Nonzero (UnpackedFloat.unpack .binary64 b) ↔
    ¬(exponentField b = 0#11 ∧ mantissaField b = 0#52) := by
  have hmantissa := (mantissaField b).isLt
  have hmantissa' := (1#1 ++ mantissaField b).isLt
  have hexponent (h : exponentField b ≠ 0#11) : (exponentField b).toNat ≠ 0 :=
    fun hzero => h (BitVec.eq_of_toNat_eq (by simpa using hzero))
  -- The cases of the format: all exponent bits set, none set, and all others.
  unfold UnpackedFloat.unpack
  dsimp only
  split
  · rename_i hall
    have hne : exponentField b ≠ 0#11 := by
      rw [show exponentField b = -1#11 from hall]
      decide
    split
    · exact iff_of_true (.infinity _) fun h => hne h.1
    · exact iff_of_true .notANumber fun h => hne h.1
  · split
    · rename_i hnone
      split
      · rename_i hzero
        exact iff_of_false nofun (not_not_intro ⟨hnone, hzero⟩)
      · rename_i hzero
        refine iff_of_true (.finite _ _ _ _ ?_ ?_) fun h => hzero h.2
        · omega
        · rw [hnone]
          decide
    · rename_i hnone
      refine iff_of_true (.finite _ _ _ _ hmantissa' ?_) fun h => hnone h.1
      have hpos := hexponent hnone
      show (-1074 : Int) ≤ (exponentField b).toNat - (1023 + 52)
      omega

/-- A bit pattern without exponent and mantissa is a zero of one sign or the other. -/
theorem unpack_eq_zero {b : BitVec 64} (hexponent : exponentField b = 0#11)
    (hmantissa : mantissaField b = 0#52) : ∃ s, UnpackedFloat.unpack .binary64 b = .zero s := by
  unfold UnpackedFloat.unpack
  dsimp only
  have hne : exponentField b ≠ -1#11 := by
    rw [hexponent]
    decide
  rw [if_neg hne, if_pos hexponent, dif_pos hmantissa]
  exact ⟨_, rfl⟩

/-! ## Comparing with zero -/

/-- What is not zero is not equal to zero, a NaN included. -/
theorem Nonzero.beq_zero {u : UnpackedFloat} (h : Nonzero u) : u.beq (.zero .positive) = false := by
  cases h with
  | notANumber => rfl
  | infinity s => cases s <;> rfl
  | finite s m e h => cases s <;> rfl

/-- A double is equal to zero if it is a zero of either sign. -/
theorem beq_zero_eq_false_iff {x : Float} : (x == 0.0) = false ↔ Nonzero x.toModel.unpack := by
  have hzero : (0.0 : Float).toModel.unpack = .zero .positive := rfl
  have hbeq : (x == 0.0) = x.toModel.unpack.beq (.zero .positive) := by
    rw [← hzero]
    rfl
  rw [hbeq]
  by_cases h : Nonzero x.toModel.unpack
  · exact iff_of_true h.beq_zero h
  · refine iff_of_false ?_ h
    obtain ⟨hexponent, hmantissa⟩ := not_not.mp fun hne => h ((nonzero_unpack_iff _).mpr hne)
    obtain ⟨s, hs⟩ := unpack_eq_zero hexponent hmantissa
    rw [Float.Model.unpack, hs]
    cases s <;> decide

/-- What equals zero is a zero. -/
theorem unpack_of_beq_zero {x : Float} (h : (x == 0.0) = true) :
    ∃ s, x.toModel.unpack = .zero s := by
  have hzero : ¬Nonzero x.toModel.unpack := by
    rw [← beq_zero_eq_false_iff, h]
    decide
  obtain ⟨hexponent, hmantissa⟩ := not_not.mp fun hne => hzero ((nonzero_unpack_iff _).mpr hne)
  exact unpack_eq_zero hexponent hmantissa

/-! ## Whole numbers -/

/-- The mantissa of a double is zero exactly if the double is. -/
theorem mantissa_dyadic_eq_zero_iff (x : Float) :
    (dyadic x).mantissa = 0 ↔ (x == 0.0) = true := by
  have hexponent : exponentField x.toBits.toBitVec = 0#11 ↔ x.toBits.toNat >>> 52 % 2048 = 0 := by
    rw [← BitVec.toNat_inj]
    simp [UnpackedFloat.unpackExponent]
  have hmantissa : mantissaField x.toBits.toBitVec = 0#52 ↔ x.toBits.toNat % 1 <<< 52 = 0 := by
    rw [← BitVec.toNat_inj]
    simp [UnpackedFloat.unpackMantissa]
  have hzero : (x == 0.0) = true ↔
      x.toBits.toNat >>> 52 % 2048 = 0 ∧ x.toBits.toNat % 1 <<< 52 = 0 := by
    rw [← hexponent, ← hmantissa, ← not_iff_not, Bool.not_eq_true, beq_zero_eq_false_iff]
    exact nonzero_unpack_iff _
  rw [hzero, dyadic]
  split
  · rename_i h
    exact (and_iff_right h).symm
  · rename_i h
    exact iff_of_false (by simp) fun h' => h h'.1

/-- A double is the whole number zero exactly if it equals zero. -/
theorem whole?_eq_zero_iff {x : Float} : whole? x = some 0 ↔ (x == 0.0) = true := by
  have hfinite (h : (x == 0.0) = true) : x.isFinite = true := by
    obtain ⟨s, hs⟩ := unpack_of_beq_zero h
    show x.toModel.unpack.isFinite = true
    rw [hs]
    rfl
  rw [← mantissa_dyadic_eq_zero_iff] at hfinite ⊢
  unfold whole?
  split
  · have hsigned (magnitude : Option Nat) :
        (magnitude.map fun n => if (dyadic x).negative then -(n : Int) else n) = some 0 ↔
          magnitude = some 0 := by
      cases magnitude with
      | none => simp
      | some n => split <;> simp
    refine (hsigned _).trans ?_
    -- What is left is about the magnitude alone, which is shifted up or down.
    generalize (dyadic x).mantissa = m
    split
    · simp
    · split
      · rename_i hdvd
        rw [Option.some_inj, Nat.shiftRight_eq_div_pow, ← Nat.one_shiftLeft]
        refine ⟨Nat.eq_zero_of_dvd_of_div_eq_zero (Nat.dvd_of_mod_eq_zero hdvd), ?_⟩
        rintro rfl
        exact Nat.zero_div _
      · rename_i hfraction
        exact iff_of_false nofun fun hm => hfraction (by rw [hm, Nat.zero_mod])
  · rename_i hinf
    exact iff_of_false nofun fun h => hinf (hfinite h)

/-! ## Integers -/

/-- A double with all digits is not zero. -/
theorem nonzero_ofPlace (s : Sign) {p : Nat} (h : 2 ^ 52 ≤ p) : Nonzero (ofPlace s p) :=
  .finite s _ _ _ (by omega) (by omega)

/-- An integer of 64 bits is converted to zero only if it is zero. -/
theorem ofInt_beq_zero_iff (n : Int64) : (Float.ofInt n.toInt == 0.0) = true ↔ n = 0 := by
  rw [← Int64.toInt_inj, Int64.toInt_zero]
  rcases (converted_ofInt n).unpack_eq with ⟨hzero, hunpack⟩ | ⟨hne, s, p, hlow, -, hunpack⟩
  · rw [hzero]
    exact iff_of_true (by decide +kernel) rfl
  · refine iff_of_false ?_ hne
    rw [Bool.not_eq_true, beq_zero_eq_false_iff, hunpack]
    exact nonzero_ofPlace s (by omega)

end Decimal

namespace Number

/-- A number is zero exactly if it is the whole number zero. -/
theorem isZero_iff (n : Number) : n.isZero = true ↔ n.whole? = some 0 := by
  cases n with
  | integer k =>
    rw [isZero, toFloat, Decimal.ofInt_beq_zero_iff, whole?, Option.some_inj]
  | decimal x =>
    rw [isZero, toFloat, ← Decimal.whole?_eq_zero_iff, whole?]
    constructor
    · intro h
      rw [h]
      rfl
    · intro h
      obtain ⟨k, hk, hzero⟩ := Option.map_eq_some_iff.mp h
      obtain ⟨hwhole, hrange⟩ := Option.filter_eq_some_iff.mp hk
      have hle : k.natAbs ≤ 2 ^ 63 - 1 := of_decide_eq_true hrange
      have hvalue := congrArg Int64.toInt hzero
      rw [Int64.toInt_ofInt_of_le (by omega) (by omega)] at hvalue
      rw [hwhole, hvalue]
      rfl

end Number

end Deployment
