import Deployment.Proofs.Syntax.Numerals
import Deployment.Proofs.Syntax.Lexemes
import Mathlib

/-! # Numbers without a sign

A minus in source text is an operator and never part of a number, so what is read from the spelling
of a number is not negative: the sign bit of the nearest double is not set, because no operation on
doubles sets it by itself. So the text of the number is one token again (`written_unsigned`), and a
number literal is read back as a literal and not as a negation.
-/

namespace Deployment

namespace Decimal

open Float.Model (UnpackedFloat)
open Float.Model.UnpackedFloat (Sign)

/-! ## The sign bit -/

/-- A double without a minus. -/
inductive Plus : UnpackedFloat → Prop
  | notANumber : Plus .notANumber
  | infinity : Plus (.infinity .positive)
  | zero : Plus (.zero .positive)
  | finite (m : Nat) (e : Int) (h : 0 < m) : Plus (.finite .positive m e h)

/-- The sign is the most significant bit. -/
theorem isNegative_eq_false_iff {x : Float} :
    isNegative x = false ↔ x.toModel.toBits.toBitVec.toNat < 1 <<< 63 := by
  rw [isNegative, decide_eq_false_iff_not, Nat.not_le]
  rfl

/-- A double whose sign bit is not set is unpacked with a positive sign. -/
theorem plus_of_isNegative {x : Float} (h : isNegative x = false) : Plus x.toModel.unpack := by
  rw [isNegative_eq_false_iff] at h
  unfold Float.Model.unpack
  generalize x.toModel.toBits.toBitVec = b at h ⊢
  have hsign : Sign.ofBitVec (@UnpackedFloat.unpackSign .binary64 b) = .positive := by
    have hbit : @UnpackedFloat.unpackSign .binary64 b = 0#1 := by
      apply BitVec.eq_of_toNat_eq
      simp [UnpackedFloat.unpackSign, Nat.shiftRight_eq_div_pow]
      omega
    simp [Sign.ofBitVec, hbit]
  unfold UnpackedFloat.unpack
  simp only [hsign]
  split
  · split
    · exact .infinity
    · exact .notANumber
  · split
    · split
      · exact .zero
      · exact .finite ..
    · exact .finite ..

/-- A positive sign is packed as a bit that is not set. -/
theorem packComponents_lt (e : BitVec 11) (m : BitVec 52) :
    (UnpackedFloat.packComponents .binary64 .positive e m).toNat < 1 <<< 63 := by
  have he := e.isLt
  have hm := m.isLt
  unfold UnpackedFloat.packComponents
  rw [BitVec.toNat_append, BitVec.toNat_append, ← Nat.shiftLeft_add_eq_or_of_lt hm]
  simp [Sign.toBitVec, Nat.shiftLeft_eq]
  omega

/-- Packing a double without a minus sets no sign bit. -/
theorem isNegative_pack {u : UnpackedFloat} (h : Plus u) :
    isNegative ⟨Float.Model.pack u⟩ = false := by
  refine isNegative_eq_false_iff.mpr ?_
  show (u.pack .binary64).toNat < 1 <<< 63
  cases h with
  | notANumber | infinity | zero => exact packComponents_lt _ _
  | finite m e h =>
    unfold UnpackedFloat.pack
    dsimp only
    split
    · exact packComponents_lt _ _
    · split
      · exact packComponents_lt _ _
      · exact packComponents_lt _ _

/-! ## Operations -/

/-- Rounding keeps the sign. -/
theorem plus_round (m : Nat) (e : Int) (a : UnpackedFloat.Accuracy) :
    Plus (UnpackedFloat.roundWithAccuracy .binary64 .positive m e a) := by
  unfold UnpackedFloat.roundWithAccuracy
  dsimp only
  split
  · exact .zero
  · exact .finite ..

/-- A product of factors without a minus has none. -/
theorem Plus.mul {u v : UnpackedFloat} (hu : Plus u) (hv : Plus v) :
    Plus (UnpackedFloat.mul .binary64 u v) := by
  cases hu <;> cases hv
  all_goals first | exact .notANumber | exact .infinity | exact .zero | exact plus_round ..

/-- A quotient of doubles without a minus has none. -/
theorem Plus.div {u v : UnpackedFloat} (hu : Plus u) (hv : Plus v) :
    Plus (UnpackedFloat.div .binary64 u v) := by
  cases hu <;> cases hv
  all_goals first | exact .notANumber | exact .infinity | exact .zero | exact plus_round ..

/-- Conversion from an unsigned integer sets no sign. -/
theorem plus_ofUInt64 (n : UInt64) : Plus (UnpackedFloat.ofUInt64 .binary64 n) := by
  unfold UnpackedFloat.ofUInt64 UnpackedFloat.ofNat UnpackedFloat.ofInt UnpackedFloat.normalize
  split
  · rename_i h
    have hlt : ((n.toNat : Int) < 0) := Int.compare_eq_lt.mp h
    omega
  · exact .zero
  · exact plus_round ..

/-- Scaling by a power of ten sets no sign. -/
theorem plus_ofScientific (m : Nat) (e : Int) :
    Plus (UnpackedFloat.ofScientific .binary64 m e) := by
  unfold UnpackedFloat.ofScientific
  split
  · exact .zero
  split
  · exact .infinity
  split
  · exact .zero
  split
  · exact (Plus.finite ..).mul (.finite ..)
  · exact (Plus.finite ..).div (.finite ..)

/-- A scientific literal is not negative. -/
theorem isNegative_ofScientific (m : Nat) (s : Bool) (e : Nat) :
    isNegative (Float.ofScientific m s e) = false := by
  unfold Float.ofScientific
  split
  · rename_i h
    have hpowers : ∀ x ∈ Float.exactlyRepresentablePowersOfTen, isNegative x = false := by
      decide +kernel
    have he : e < Float.exactlyRepresentablePowersOfTen.size := Nat.lt_succ_of_le h.2
    have hpower := plus_of_isNegative (hpowers _ (Array.getElem_mem he))
    have hunpacked := plus_of_isNegative (isNegative_pack (plus_ofUInt64 m.toUInt64))
    dsimp only
    split
    · exact isNegative_pack (hunpacked.div hpower)
    · exact isNegative_pack (hunpacked.mul hpower)
  · exact isNegative_pack (plus_ofScientific _ _)

/-! ## Reading -/

/-- The nearest double to a significand and an exponent is not negative. -/
theorem isNegative_nearest (significand : Nat) (exponent : Int) :
    isNegative (nearest significand exponent) = false := by
  unfold nearest
  dsimp only
  split
  · decide +kernel
  split
  · decide +kernel
  split
  · exact isNegative_ofScientific _ _ _
  · exact isNegative_ofScientific _ _ _

/-- What digits, a fraction and an exponent denote is not negative. -/
theorem isNegative_of_magnitude? {s : List Char} {x : Float} (h : magnitude? s = some x) :
    isNegative x = false := by
  unfold magnitude? at h
  dsimp only at h
  -- With a fraction or without, the value is the double nearest to the digits.
  split at h
  all_goals
    split at h
    · cases h
    · obtain ⟨exponent, -, rfl⟩ := Option.map_eq_some_iff.mp h
      exact isNegative_nearest _ _

/-- Only a minus in the text makes the decimal negative. -/
theorem isNegative_of_ofNotation? {s : List Char} {x : Float} (hs : s.head? ≠ some '-')
    (h : ofNotation? s = some x) : isNegative x = false := by
  unfold ofNotation? at h
  split at h
  rename_i negative body heq
  obtain ⟨y, hy, rfl⟩ := Option.map_eq_some_iff.mp h
  split at heq
  · exact absurd rfl hs
  -- With a plus or without, the rest is a word or a magnitude.
  all_goals
    cases heq
    rw [if_neg Bool.false_ne_true]
    split at hy
    case h_4 => exact isNegative_of_magnitude? hy
    all_goals
      cases hy
      decide +kernel

end Decimal

/-- Blanks around a text do not hide how it starts. -/
theorem Text.trim_cons {c : Char} (hc : isBlank c = false) (rest : List Char) :
    ∃ rest', trim (c :: rest) = c :: rest' := by
  have hc' : ¬isBlank c := by simp [hc]
  rw [trim, List.dropWhile_cons_of_neg hc', List.reverse_cons, List.dropWhile_append]
  split
  · exact ⟨[], by simp [hc]⟩
  · exact ⟨(rest.reverse.dropWhile isBlank).reverse, by simp⟩

namespace Number

/-- The number has no minus. -/
def IsUnsigned : Number → Prop
  | .integer n => 0 ≤ n.toInt
  | .decimal x => Decimal.isNegative x = false

/-- What is read from a spelling without a sign is not negative. -/
theorem isUnsigned_of_parse? {spelling : String} {n : Number}
    (hspelling : Token.Unsigned spelling) (h : parse? spelling = some n) : n.IsUnsigned := by
  obtain ⟨c, rest, htext, hc⟩ := hspelling
  have hblank := Text.isBlank_eq_false_of_continuesName (Text.continuesName_of_isDigit hc)
  obtain ⟨rest', htrim⟩ := Text.trim_cons hblank rest
  have hminus : c ≠ '-' := by
    rintro rfl
    cases hc
  rw [parse?, htext, htrim] at h
  dsimp only at h
  split at h
  · rename_i heq
    exact absurd (List.cons.inj heq).1 hminus
  split at h
  · cases h
  rcases Option.or_eq_some_iff.mp h with h | ⟨-, h⟩
  · split at h
    · rw [if_neg Bool.false_ne_true, ofInt?] at h
      split at h
      · rename_i hrange
        cases h
        show 0 ≤ (Int64.ofInt _).toInt
        rw [Int64.toInt_ofInt_of_le hrange.1 (Int.lt_of_le_of_lt hrange.2 (by decide))]
        omega
      · cases h
    · cases h
  · obtain ⟨x, hx, rfl⟩ := Option.map_eq_some_iff.mp h
    have hfiltered := (Option.filter_eq_some_iff.mp hx).1
    exact Decimal.isNegative_of_ofNotation? (by simpa using hminus) hfiltered

/-- The text of a number without a minus is one token, and the number is read back from it. -/
theorem written_unsigned {n : Number} (h : n.IsUnsigned) (hlegible : n.Legible) :
    ∃ spelling, n.tokens = [.number spelling] ∧ parse? spelling = some n := by
  have hminus : ∀ s, (n.write .expression).toList ≠ '-' :: s := by
    intro s heq
    cases n with
    | integer k =>
      rw [write, Int.toString_eq_repr, Int.repr_eq_if, if_pos (show 0 ≤ k.toInt from h),
        Nat.toList_repr] at heq
      have hdigit := (Token.isDigits_toDigits _).2 '-' (by rw [heq]; exact List.mem_cons_self)
      cases hdigit
    | decimal x =>
      obtain ⟨digits, hdigits, htext⟩ := Decimal.Layout.write_expression hlegible.1
      rw [write, htext, if_neg (by simp [show Decimal.isNegative x = false from h])] at heq
      obtain ⟨c, rest, rfl, hc⟩ := hdigits.1.head
      cases heq
      cases hc
  have hwritten := hlegible.written
  unfold tokens
  generalize (n.write .expression).toList = text at hwritten hminus ⊢
  cases hwritten with
  | positive number reads =>
    split
    · exact absurd rfl (hminus _)
    · exact ⟨_, rfl, reads⟩
  | negative => exact absurd rfl (hminus _)

end Number

end Deployment
