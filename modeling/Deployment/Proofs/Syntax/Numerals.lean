import Deployment.Number.Arithmetic
import Deployment.Proofs.Syntax.Lexing

/-! # Numbers as they are written and read

A number is written as digits with an optional fraction and exponent, behind a minus if it is
negative. The digits are read back as a number of their own, and the minus negates it:
`Number.Legible.written` says so for integers other than the least one and for decimals that are
read back from their text.
-/

namespace Deployment

/-! ## Doubles -/

namespace Decimal

/-- A finite double is a number. -/
theorem isNaN_eq_false_of_isFinite {x : Float} (h : x.isFinite) : x.isNaN = false := by
  have hx : x.toModel.unpack.isFinite = true := h
  show x.toModel.unpack.isNaN = false
  revert hx
  cases x.toModel.unpack with
  | notANumber => exact fun hx => absurd hx (by decide)
  | infinity s => exact fun _ => rfl
  | zero s => exact fun _ => rfl
  | finite s m e hm => exact fun _ => rfl

/-- The sign does not matter to whether a double is finite. -/
theorem isFinite_of_isFinite_neg {x : Float} (h : (-x).isFinite) : x.isFinite := by
  have hx : (Float.Model.pack x.toModel.unpack.neg).unpack.isFinite = true := h
  show x.toModel.unpack.isFinite = true
  revert hx
  cases x.toModel.unpack with
  | infinity s => cases s <;> decide
  | notANumber => decide
  | zero s => exact fun _ => rfl
  | finite s m e hm => exact fun _ => rfl

end Decimal

open Token (IsDigits IsFraction IsExponent IsNumber)

/-! ## Digits -/

/-- A natural number is written with digits. -/
theorem Token.isDigits_toDigits (n : Nat) : IsDigits (Nat.toDigits 10 n) :=
  ⟨Nat.toDigits_ne_nil, fun _ hc => Nat.isDigit_of_mem_toDigits (by decide) (by decide) hc⟩

/-- Digits alone are a number. -/
theorem Token.IsDigits.isNumber {s : List Char} (h : IsDigits s) : IsNumber s := by
  have hnumber := IsNumber.intro h .nil .nil
  rwa [List.append_nil, List.append_nil] at hnumber

/-- A number starts with a digit. -/
theorem Token.IsNumber.head {s : List Char} (h : IsNumber s) :
    ∃ c rest, s = c :: rest ∧ c.isDigit := by
  obtain ⟨hwhole, _, _⟩ := h
  exact hwhole.head _

/-- The digits of a natural number denote it. -/
theorem Decimal.natOfDigits_toDigits (n : Nat) : natOfDigits (Nat.toDigits 10 n) = n :=
  Nat.ofDigitChars_ten_toDigits

/-- No character of a number is blank. -/
theorem Token.IsNumber.trim {s : List Char} (h : IsNumber s) : Text.trim s = s := by
  have hblank (c : Char) (hc : c ∈ s) : Text.isBlank c = false := by
    rcases h.continuesName hc with hname | rfl
    · exact Text.isBlank_eq_false_of_continuesName hname
    · decide
  have hdrop {t : List Char} (ht : ∀ c ∈ t, Text.isBlank c = false) :
      t.dropWhile Text.isBlank = t := by
    cases t with
    | nil => rfl
    | cons c rest => simp [ht c (by simp)]
  rw [Text.trim, hdrop hblank, hdrop fun c hc => hblank c (List.mem_reverse.mp hc),
    List.reverse_reverse]

/-! ## Reading numbers -/

namespace Number

/-- A number without a sign is read as an integer if it has digits only and fits, and else as a
decimal, if the nearest one is finite. -/
theorem parse?_eq {s : List Char} (h : IsNumber s) :
    parse? (String.ofList s) =
      (if s.all Char.isDigit then ofInt? (Decimal.natOfDigits s) else none).or
        (((Decimal.ofNotation? s).filter Float.isFinite).map .decimal) := by
  obtain ⟨c, rest, rfl, hc⟩ := h.head
  have hminus : c ≠ '-' := by
    rintro rfl
    cases hc
  rw [parse?, String.toList_ofList, h.trim]
  split
  rename_i negative digits heq
  split at heq
  · rename_i heq'
    exact absurd (List.cons.inj heq').1 hminus
  · cases heq
    simp [hc]

/-- Every integer of 64 bits fits. -/
theorem ofInt?_toInt (n : Int64) : ofInt? n.toInt = some (.integer n) := by
  rw [ofInt?, if_pos ⟨n.minValue_le_toInt, n.toInt_le⟩, Int64.ofInt_toInt]

end Number

/-! ## Writing numbers -/

namespace Decimal

/-- A number with a fraction or an exponent, which is no sequence of digits. -/
def IsDecimal (s : List Char) : Prop :=
  IsNumber s ∧ s.all Char.isDigit = false

/-- A number with a fraction is a decimal. -/
theorem IsDecimal.of_fraction {whole digits exponent : List Char} (hwhole : IsDigits whole)
    (hdigits : IsDigits digits) (hexponent : IsExponent exponent) :
    IsDecimal (whole ++ ('.' :: digits ++ exponent)) :=
  ⟨.intro hwhole (.digits hdigits) hexponent, by simp⟩

/-- A number with an exponent is a decimal. -/
theorem IsDecimal.of_exponent {whole fraction exponent : List Char} (hwhole : IsDigits whole)
    (hfraction : IsFraction fraction) (hexponent : IsExponent exponent) (hne : exponent ≠ []) :
    IsDecimal (whole ++ (fraction ++ exponent)) := by
  refine ⟨.intro hwhole hfraction hexponent, ?_⟩
  cases hexponent with
  | nil => exact absurd rfl hne
  | positive | negative => simp

/-- The exponent is written as an integer behind the letter. -/
theorem isExponent_toString (order : Int) : IsExponent ('e' :: (toString order).toList) := by
  rw [Int.toString_eq_repr, Int.repr_eq_if]
  split
  · rw [Nat.toList_repr]
    exact .positive (Token.isDigits_toDigits _)
  · rw [String.toList_append, Nat.toList_repr]
    exact .negative (Token.isDigits_toDigits _)

/-- Written out, a decimal has a point in it: behind all its digits, between two of them, or in
front of them. -/
theorem Layout.isDecimal_writePositional {digits : List Char} (h : IsDigits digits)
    (exponent : Int) : IsDecimal (Layout.expression.writePositional digits exponent) := by
  have hzeros (count : Nat) : ∀ c ∈ List.replicate count '0', c.isDigit := by
    intro c hc
    rw [List.eq_of_mem_replicate hc]
    rfl
  have hpos := List.length_pos_iff.mpr h.1
  have hzero : IsDigits ['0'] := ⟨by simp, by simp⟩
  have heq : Layout.expression.writePositional digits exponent =
      if 0 ≤ exponent then digits ++ List.replicate exponent.toNat '0' ++ ['.', '0']
      else if 0 < (digits.length : Int) + exponent then
        digits.take ((digits.length : Int) + exponent).toNat ++
          '.' :: digits.drop ((digits.length : Int) + exponent).toNat
      else '0' :: '.' :: List.replicate (-((digits.length : Int) + exponent)).toNat '0' ++ digits :=
    rfl
  -- The point is behind, within or in front of the digits.
  rw [heq]
  split
  · have hwhole : IsDigits (digits ++ List.replicate exponent.toNat '0') :=
      ⟨by simp [h.1], fun c hc => (List.mem_append.mp hc).elim (h.2 c) (hzeros _ c)⟩
    exact .of_fraction hwhole hzero .nil
  · split
    · have hwhole : IsDigits (digits.take ((digits.length : Int) + exponent).toNat) :=
        ⟨by rw [← List.length_pos_iff, List.length_take]; omega,
          fun c hc => h.2 c (List.mem_of_mem_take hc)⟩
      have hfraction : IsDigits (digits.drop ((digits.length : Int) + exponent).toNat) :=
        ⟨by rw [← List.length_pos_iff, List.length_drop]; omega,
          fun c hc => h.2 c (List.mem_of_mem_drop hc)⟩
      simpa using IsDecimal.of_fraction hwhole hfraction .nil
    · have hfraction : IsDigits
          (List.replicate (-((digits.length : Int) + exponent)).toNat '0' ++ digits) :=
        ⟨by simp [h.1], fun c hc => (List.mem_append.mp hc).elim (hzeros _ c) (h.2 c)⟩
      simpa using IsDecimal.of_fraction hzero hfraction .nil

/-- In scientific notation it has an exponent. -/
theorem Layout.isDecimal_writeScientific {digits : List Char} (h : IsDigits digits)
    (order : Int) : IsDecimal (Layout.expression.writeScientific digits order) := by
  obtain ⟨hne, hall⟩ := h
  cases digits with
  | nil => exact absurd rfl hne
  | cons c fraction =>
    have hwhole : IsDigits [c] := ⟨by simp, by simpa using hall c (by simp)⟩
    have hfraction : IsFraction (if fraction.isEmpty then [] else '.' :: fraction) := by
      split
      · exact .nil
      · rename_i hnonempty
        exact .digits ⟨by simpa using hnonempty, fun d hd => hall d (List.mem_cons_of_mem _ hd)⟩
    simpa [writeScientific, Layout.expression] using
      IsDecimal.of_exponent hwhole hfraction (isExponent_toString order) (by simp)

/-- The text of a finite decimal. -/
theorem Layout.write_expression {x : Float} (h : x.isFinite) :
    ∃ s, IsDecimal s ∧
      (Layout.expression.write x).toList = if isNegative x then '-' :: s else s := by
  let digits := Nat.toDigits 10 (shortest expression.tie x).significand
  let order := (shortest expression.tie x).exponent + digits.length - 1
  have hdigits : IsDigits digits := Token.isDigits_toDigits _
  refine ⟨if expression.positional order then
    expression.writePositional digits (shortest expression.tie x).exponent
    else expression.writeScientific digits order, ?_, ?_⟩
  · split
    · exact isDecimal_writePositional hdigits _
    · exact isDecimal_writeScientific hdigits _
  · rw [write, isNaN_eq_false_of_isFinite h, if_neg Bool.false_ne_true, h]
    dsimp only
    rw [if_neg (by simp), String.toList_append, String.toList_ofList]
    cases isNegative x <;> rfl

end Decimal

/-- The text of the decimal denotes it. -/
def Decimal.ReadsBack (x : Float) : Prop :=
  x.isFinite ∧ ofNotation? (Layout.expression.write x).toList = some x

namespace Number

/-- A number with a text from which it is read back. The least integer has none, because its digits
alone are too large. -/
def Legible : Number → Prop
  | .integer n => n ≠ Int64.minValue
  | .decimal x => Decimal.ReadsBack x

/-- The text of a number: digits that are read as the number, or a minus and the digits of a number
that is negated. -/
inductive Written (n : Number) : List Char → Prop
  | positive {s : List Char} (number : IsNumber s) (reads : parse? (String.ofList s) = some n) :
      Written n s
  | negative {s : List Char} {m : Number} (number : IsNumber s)
      (reads : parse? (String.ofList s) = some m) (negates : m.negate = .ok n) :
      Written n ('-' :: s)

/-- The digits of a natural number that fits 64 bits are read as this integer. -/
theorem parse?_toDigits (k : Nat) {m : Number} (h : ofInt? k = some m) :
    parse? (String.ofList (Nat.toDigits 10 k)) = some m := by
  have hdigits := Token.isDigits_toDigits k
  rw [parse?_eq hdigits.isNumber, if_pos (by simpa using hdigits.2),
    Decimal.natOfDigits_toDigits, h,
    Option.some_or]

/-- An integer is written as its digits or as a minus and the digits of its opposite, which has to
fit. -/
theorem written_integer {n : Int64} (h : n ≠ Int64.minValue) :
    Written (.integer n) (toString n.toInt).toList := by
  rw [Int.toString_eq_repr, Int.repr_eq_if]
  split
  · rename_i hpos
    rw [Nat.toList_repr]
    refine .positive (Token.isDigits_toDigits _).isNumber (parse?_toDigits _ ?_)
    rw [Int.toNat_of_nonneg hpos, ofInt?_toInt]
  · rename_i hneg
    -- Only the least integer has no opposite of 64 bits.
    have hmin : n.toInt ≠ Int64.minValue.toInt := fun heq => h (Int64.toInt_inj.mp heq)
    have hle := n.minValue_le_toInt
    have hrange : Int64.minValue.toInt = -2 ^ 63 ∧ Int64.maxValue.toInt = 2 ^ 63 - 1 := by decide
    have hk : (((-n.toInt).toNat : Nat) : Int) = -n.toInt := Int.toNat_of_nonneg (by omega)
    have hm : ofInt? ((-n.toInt).toNat : Nat) = some (.integer (Int64.ofInt (-n.toInt))) := by
      rw [hk, ofInt?, if_pos (by omega)]
    have htoInt : (Int64.ofInt (-n.toInt)).toInt = -n.toInt :=
      Int64.toInt_ofInt_of_le (by omega) (by omega)
    rw [String.toList_append, Nat.toList_repr]
    refine .negative (Token.isDigits_toDigits _).isNumber (parse?_toDigits _ hm) ?_
    rw [negate, htoInt, Int.neg_neg, exact, ofInt?_toInt]

/-- A decimal is read as the double that its text denotes. -/
theorem parse?_isDecimal {s : List Char} (h : Decimal.IsDecimal s) {x : Float}
    (hfinite : x.isFinite) (hx : Decimal.ofNotation? s = some x) :
    parse? (String.ofList s) = some (.decimal x) := by
  rw [parse?_eq h.1, h.2, if_neg Bool.false_ne_true, Option.none_or, hx, Option.filter_some,
    if_pos hfinite, Option.map_some]

/-- A minus negates what the digits behind it denote. -/
theorem ofNotation?_minus {s : List Char} (h : IsNumber s) :
    Decimal.ofNotation? ('-' :: s) = (Decimal.ofNotation? s).map (-·) := by
  obtain ⟨c, rest, rfl, hc⟩ := h.head
  have hsign : c ≠ '-' ∧ c ≠ '+' := by
    constructor <;> rintro rfl <;> cases hc
  rw [Decimal.ofNotation?, Decimal.ofNotation?]
  · simp only [if_true, Bool.false_eq_true, if_false, Option.map_id']
  · rintro digits heq
    exact hsign.1 (List.cons.inj heq).1
  · rintro digits heq
    exact hsign.2 (List.cons.inj heq).1

/-- A decimal that its text denotes is written as a number or as a minus and the number of its
opposite. -/
theorem written_decimal {x : Float} (h : Decimal.ReadsBack x) :
    Written (.decimal x) (Decimal.Layout.expression.write x).toList := by
  obtain ⟨hfinite, hread⟩ := h
  obtain ⟨s, hs, htext⟩ := Decimal.Layout.write_expression hfinite
  rw [htext] at hread ⊢
  split at hread
  · rename_i hnegative
    rw [if_pos hnegative]
    rw [ofNotation?_minus hs.1, Option.map_eq_some_iff] at hread
    obtain ⟨y, hy, rfl⟩ := hread
    exact .negative hs.1 (parse?_isDecimal hs (Decimal.isFinite_of_isFinite_neg hfinite) hy) rfl
  · rename_i hpositive
    rw [if_neg hpositive]
    exact .positive hs.1 (parse?_isDecimal hs hfinite hread)

/-- A legible number is read back from its text. -/
theorem Legible.written {n : Number} (h : n.Legible) : Written n (n.write .expression).toList := by
  cases n with
  | integer n => exact written_integer h
  | decimal x => exact written_decimal h

end Number

end Deployment
