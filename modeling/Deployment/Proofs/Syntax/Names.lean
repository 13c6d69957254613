import Deployment.Text.Blank
import Deployment.Text.Letter

/-! # Names

A name as the lexer reads it, and which characters cannot be part of one: blanks never are, digits
never come first, and punctuation has no place in it.
-/

namespace Deployment.Text

/-- The code points of digits. -/
theorem isDigit_cases {c : Char} (h : c.isDigit) : ∃ n ∈ List.range' 48 10, c = Char.ofNat n := by
  simp only [Char.isDigit, Bool.and_eq_true, decide_eq_true_eq, UInt32.le_iff_toNat_le] at h
  refine ⟨c.toNat, ?_, (Char.ofNat_toNat c).symm⟩
  have h48 : '0'.val.toNat = 48 := rfl
  have h57 : '9'.val.toNat = 57 := rfl
  simp only [List.mem_range'_1, Char.toNat]
  omega

/-- Digits can be part of a name. -/
theorem continuesName_of_isDigit {c : Char} (h : c.isDigit) : continuesName c := by
  obtain ⟨n, hn, rfl⟩ := isDigit_cases h
  revert n
  decide

/-- No name starts with a digit. -/
theorem isDigit_eq_false_of_startsName {c : Char} (h : startsName c) : c.isDigit = false := by
  refine Bool.eq_false_iff.mpr fun hdigit => ?_
  obtain ⟨n, hn, rfl⟩ := isDigit_cases hdigit
  revert n
  decide

/-- The code points of blanks. -/
theorem isBlank_cases {c : Char} (h : isBlank c) :
    ∃ n ∈ List.range' 9 5 ++ [0x20, 0x85, 0xA0, 0x1680] ++ List.range' 0x2000 11 ++
      [0x2028, 0x2029, 0x202F, 0x205F, 0x3000], c = Char.ofNat n := by
  refine ⟨c.toNat, ?_, (Char.ofNat_toNat c).symm⟩
  simp only [isBlank, Bool.or_eq_true, Bool.and_eq_true, decide_eq_true_eq, beq_iff_eq] at h
  simp only [List.mem_append, List.mem_range'_1, List.mem_cons, List.not_mem_nil, or_false]
  omega

/-- Blanks are no part of a name. -/
theorem continuesName_eq_false_of_isBlank {c : Char} (h : isBlank c) :
    continuesName c = false := by
  obtain ⟨n, hn, rfl⟩ := isBlank_cases h
  revert n
  decide +kernel

/-- A character of a name is no blank. -/
theorem isBlank_eq_false_of_continuesName {c : Char} (h : continuesName c) : isBlank c = false := by
  refine Bool.eq_false_iff.mpr fun hblank => ?_
  rw [continuesName_eq_false_of_isBlank hblank] at h
  cases h

/-- A name as the lexer reads it. -/
def IsName (s : String) : Prop :=
  match s.toList with
  | [] => False
  | c :: rest => startsName c ∧ rest.all continuesName

instance (s : String) : Decidable (IsName s) := by
  unfold IsName
  exact match s.toList with
    | [] => inferInstanceAs (Decidable False)
    | c :: rest => inferInstanceAs (Decidable (_ ∧ _))

/-- A name is a character that may start one, and characters that may continue it. -/
theorem IsName.cases {s : String} (h : IsName s) :
    ∃ c rest, s.toList = c :: rest ∧ startsName c ∧ ∀ d ∈ rest, continuesName d := by
  unfold IsName at h
  split at h
  · exact h.elim
  · rename_i c rest hs
    exact ⟨c, rest, hs, h.1, List.all_eq_true.mp h.2⟩

/-- Every character of a name, the first one too, may continue one. -/
theorem IsName.continuesName {s : String} (h : IsName s) {d : Char} (hd : d ∈ s.toList) :
    continuesName d := by
  obtain ⟨c, rest, hs, hc, hrest⟩ := h.cases
  rw [hs] at hd
  rcases List.mem_cons.mp hd with rfl | hmem
  · exact continuesName_of_startsName hc
  · exact hrest d hmem

end Deployment.Text
