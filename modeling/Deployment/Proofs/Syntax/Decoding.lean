import Deployment.Proofs.Ensures
import Deployment.Proofs.Syntax.Quoting
import Mathlib

/-! # What quoted text denotes

Quoted text without interpolations is a sequence of escaped markers, escapes and other characters,
and denotes the text that these stand for. `Template.Denotes` is this grammar. Its parameter says
whether the code point of an escape may have a plus sign in place of its first digit: the number
reader behind the escapes takes one, so that is the grammar of what is read
(`Template.parse_denotes_iff`). Without signs, it is the grammar of the text in which no escape has
a sign (`Denotes.unsigned_iff`).
-/

namespace Deployment.Template

/-! ## Hexadecimal numbers -/

/-- A hexadecimal digit and its value. -/
inductive HexDigit : Char → Nat → Prop
  | decimal {c : Char} (h : c.isDigit) : HexDigit c (c.toNat - '0'.toNat)
  | lower {c : Char} (h : 'a' ≤ c ∧ c ≤ 'f') : HexDigit c (c.toNat - 'a'.toNat + 10)
  | upper {c : Char} (h : 'A' ≤ c ∧ c ≤ 'F') : HexDigit c (c.toNat - 'A'.toNat + 10)

/-- Hexadecimal digits and the number they denote. -/
def HexNumber (digits : List Char) (n : Nat) : Prop :=
  ∃ values, List.Forall₂ HexDigit digits values ∧ n = values.foldl (fun n v => 16 * n + v) 0

theorem toNat_le_of_le {c d : Char} (h : c ≤ d) : c.toNat ≤ d.toNat := h

theorem isDigit_iff {c : Char} : c.isDigit ↔ 48 ≤ c.toNat ∧ c.toNat ≤ 57 := by
  rw [Char.isDigit, Bool.and_eq_true, decide_eq_true_iff, decide_eq_true_iff]
  rfl

/-- A hexadecimal digit is an ASCII character. -/
theorem HexDigit.utf8Size {c : Char} {v : Nat} (h : HexDigit c v) : c.utf8Size = 1 := by
  have hc : c.toNat ≤ 127 := by
    cases h with
    | decimal h => exact Nat.le_trans (isDigit_iff.mp h).2 (by decide)
    | lower h => exact Nat.le_trans (toNat_le_of_le h.2) (by decide)
    | upper h => exact Nat.le_trans (toNat_le_of_le h.2) (by decide)
  exact Char.utf8Size_eq_one_iff.mpr hc

/-- Letters stand behind the digits, which keeps the kinds of hexadecimal digits apart. -/
theorem not_isDigit_of_le {c : Char} (h : 'A' ≤ c) : ¬c.isDigit := by
  intro hc
  have hle : 'A'.toNat ≤ 57 := Nat.le_trans (toNat_le_of_le h) (isDigit_iff.mp hc).2
  exact absurd hle (by decide)

/-- The reader of digits accepts exactly the hexadecimal digits, of either case. -/
theorem hexDigit?_eq_some_iff {c : Char} {v : Nat} : hexDigit? c = some v ↔ HexDigit c v := by
  unfold hexDigit?
  constructor
  · intro h
    split at h
    · rename_i hc
      obtain rfl := Option.some.inj h
      exact .decimal hc
    split at h
    · rename_i hc
      obtain rfl := Option.some.inj h
      exact .lower hc
    split at h
    · rename_i hc
      obtain rfl := Option.some.inj h
      exact .upper hc
    · cases h
  · intro h
    cases h with
    | decimal h => rw [if_pos h]
    | lower h =>
      -- The ranges are tried in order, so a letter has to be told from a digit first.
      have hupper : 'A' ≤ c := Nat.le_trans (by decide : 'A' ≤ 'a') h.1
      rw [if_neg (not_isDigit_of_le hupper), if_pos h]
    | upper h =>
      have hlower : ¬('a' ≤ c ∧ c ≤ 'f') := fun hc =>
        absurd (Nat.le_trans (toNat_le_of_le hc.1) (toNat_le_of_le h.2)) (by decide)
      rw [if_neg (not_isDigit_of_le h.1), if_neg hlower, if_pos h]

/-- A hexadecimal digit is no character that the reader refuses. -/
theorem HexDigit.ne {c d : Char} {v : Nat} (h : HexDigit c v) (hd : hexDigit? d = none) :
    c ≠ d := by
  rintro rfl
  rw [hexDigit?_eq_some_iff.mpr h] at hd
  cases hd

/-- Digits are read from the left, each one behind the number read so far. -/
theorem foldlM_hexDigit? (digits : List Char) (a n : Nat) :
    digits.foldlM (fun n c => (hexDigit? c).map (16 * n + ·)) a = some n ↔
      ∃ values, List.Forall₂ HexDigit digits values ∧
        n = values.foldl (fun n v => 16 * n + v) a := by
  induction digits generalizing a with
  | nil => simp [eq_comm]
  | cons c rest ih =>
    rw [List.foldlM_cons, Option.bind_eq_bind, Option.bind_eq_some_iff]
    constructor
    · rintro ⟨next, hnext, hrest⟩
      obtain ⟨v, hv, rfl⟩ := Option.map_eq_some_iff.mp hnext
      obtain ⟨values, hvalues, hn⟩ := (ih _).mp hrest
      exact ⟨v :: values, .cons (hexDigit?_eq_some_iff.mp hv) hvalues, hn⟩
    · rintro ⟨_, hvalues, hn⟩
      cases hvalues with
      | cons hv hvalues =>
        exact ⟨_, Option.map_eq_some_iff.mpr ⟨_, hexDigit?_eq_some_iff.mpr hv, rfl⟩,
          (ih _).mpr ⟨_, hvalues, hn⟩⟩

/-- Digits are as many as the bytes they take, so counting either is the same. -/
theorem HexNumber.forall_utf8Size {digits : List Char} {n : Nat} (h : HexNumber digits n) :
    ∀ c ∈ digits, c.utf8Size = 1 := by
  obtain ⟨values, hvalues, -⟩ := h
  induction hvalues with
  | nil => simp
  | cons hv _ ih => exact List.forall_mem_cons.mpr ⟨hv.utf8Size, ih⟩

/-- A plus sign in front of the digits is dropped by the number reader. -/
theorem hexNumber?_plus (digits : List Char) (n : Nat) :
    hexNumber? ('+' :: digits) = some n ↔ HexNumber digits n :=
  foldlM_hexDigit? digits 0 n

/-- Without a plus sign in front, what is read are the digits and nothing else. -/
theorem hexNumber?_of_ne_plus {digits : List Char} (h : ∀ rest, digits ≠ '+' :: rest) (n : Nat) :
    hexNumber? digits = some n ↔ HexNumber digits n := by
  rw [hexNumber?]
  · exact foldlM_hexDigit? digits 0 n
  · exact h

/-- A plus sign is no digit. -/
theorem HexNumber.not_plus {digits : List Char} {n : Nat} : ¬HexNumber ('+' :: digits) n := by
  rintro ⟨_, hvalues, -⟩
  cases hvalues with
  | cons hv _ => exact hv.ne rfl rfl

/-- Digits alone are read as their number. -/
theorem HexNumber.hexNumber? {digits : List Char} {n : Nat} (h : HexNumber digits n) :
    hexNumber? digits = some n := by
  refine (hexNumber?_of_ne_plus ?_ n).mpr h
  rintro rest rfl
  exact not_plus h

/-- A code denotes the character with that code, if there is one: surrogates and what lies beyond
the last code point have none. -/
theorem scalar?_eq_some_iff {code : Nat} {c : Char} : scalar? code = some c ↔ c.toNat = code := by
  rw [scalar?]
  constructor
  · intro h
    split at h
    · rename_i hvalid
      obtain rfl := Option.some.inj h
      rw [Char.toNat_ofNat, if_pos hvalid]
    · cases h
  · rintro rfl
    have hvalid : c.toNat.isValidChar := c.valid
    rw [if_pos hvalid, Char.ofNat_toNat]

/-! ## A number of bytes -/

/-- What is taken from a text are its first characters, and they have the length asked for. -/
theorem append_of_takeBytes? {n : Nat} {s taken : List Char} (h : takeBytes? n s = some taken) :
    Text.utf8Length taken = n ∧ ∃ rest, s = taken ++ rest := by
  fun_induction takeBytes? n s generalizing taken with
  | case1 s =>
    obtain rfl := Option.some.inj h
    exact ⟨rfl, s, rfl⟩
  | case2 => cases h
  | case3 n c s hc ih =>
    obtain ⟨taken, htaken, rfl⟩ := Option.map_eq_some_iff.mp h
    obtain ⟨hlength, rest, rfl⟩ := ih htaken
    exact ⟨by rw [Text.utf8Length_cons, hlength]; omega, rest, rfl⟩
  | case4 => cases h

/-- ASCII characters take one byte each. -/
theorem utf8Length_of_ascii {s : List Char} (h : ∀ c ∈ s, c.utf8Size = 1) :
    Text.utf8Length s = s.length := by
  induction s with
  | nil => rfl
  | cons c s ih =>
    obtain ⟨hc, hs⟩ := List.forall_mem_cons.mp h
    rw [Text.utf8Length_cons, ih hs, hc, List.length_cons, Nat.add_comm]

/-- Of ASCII characters as many are taken as bytes are asked for. -/
theorem takeBytes?_ascii {taken : List Char} (h : ∀ c ∈ taken, c.utf8Size = 1)
    (rest : List Char) : takeBytes? taken.length (taken ++ rest) = some taken := by
  induction taken with
  | nil => rw [List.length_nil, takeBytes?]
  | cons c taken ih =>
    obtain ⟨hc, htaken⟩ := List.forall_mem_cons.mp h
    rw [List.length_cons, List.cons_append, takeBytes?, if_pos (by omega), hc,
      Nat.add_sub_cancel, ih htaken, Option.map_some]

/-! ## Escapes -/

/-- The letters of the escapes for single characters, and these characters. -/
def letters : List (Char × Char) :=
  [('n', '\n'), ('r', '\r'), ('t', '\t'), ('"', '"'), ('\\', '\\')]

/-- The letters of the escapes for code points, and how many digits they have. -/
def codePoints : List (Char × Nat) :=
  [('u', 4), ('U', 8)]

/-- The letter tells the two kinds of escapes apart. -/
theorem letter_not_mem_codePoints : ∀ pair ∈ letters, pair.1 ∉ codePoints.map Prod.fst := by
  decide

/-- What may stand behind a backslash, and the character it denotes. Where signs are taken, a plus
sign may stand in place of the first digit of a code point. -/
inductive Escape (signs : Bool) : List Char → Char → Prop
  | letter {l c : Char} (h : (l, c) ∈ letters) : Escape signs [l] c
  | codePoint {l c : Char} {digits : List Char} (h : (l, digits.length) ∈ codePoints)
      (hdigits : HexNumber digits c.toNat) : Escape signs (l :: digits) c
  | signed {l c : Char} {digits : List Char} (hsigns : signs)
      (h : (l, digits.length + 1) ∈ codePoints) (hdigits : HexNumber digits c.toNat) :
      Escape signs (l :: '+' :: digits) c

/-- A code point is read from as many bytes as its escape has. -/
theorem codePoint_eq_ok {l c : Char} {width : Nat} {rest digits : List Char}
    (htaken : takeBytes? width rest = some digits) (hnumber : hexNumber? digits = some c.toNat) :
    codePoint l width rest = .ok (c, digits.length + 1) := by
  rw [codePoint, htaken]
  simp only [hnumber, Option.bind_some, scalar?_eq_some_iff.mpr rfl]

/-- A letter behind the backslash stands for one character and is all that is read. -/
theorem unescape_letter {l c : Char} (h : (l, c) ∈ letters) (rest : List Char) :
    unescape (l :: rest) = .ok (c, 1) := by
  simp only [letters, List.mem_cons, Prod.mk.injEq, List.not_mem_nil, or_false] at h
  obtain ⟨rfl, rfl⟩ | ⟨rfl, rfl⟩ | ⟨rfl, rfl⟩ | ⟨rfl, rfl⟩ | ⟨rfl, rfl⟩ := h <;> rfl

/-- The other letters introduce a code point of their width. -/
theorem unescape_codePoint {l : Char} {width : Nat} (h : (l, width) ∈ codePoints)
    (rest : List Char) : unescape (l :: rest) = codePoint l width rest := by
  simp only [codePoints, List.mem_cons, Prod.mk.injEq, List.not_mem_nil, or_false] at h
  obtain ⟨rfl, rfl⟩ | ⟨rfl, rfl⟩ := h <;> rfl

/-- An escape is read as the character it denotes, whatever follows it. -/
theorem Escape.unescape {signs : Bool} {spelled : List Char} {c : Char}
    (h : Escape signs spelled c) (rest : List Char) :
    unescape (spelled ++ rest) = .ok (c, spelled.length) := by
  cases h with
  | letter h => exact unescape_letter h rest
  | codePoint h hdigits =>
    rw [List.cons_append, unescape_codePoint h]
    exact codePoint_eq_ok (takeBytes?_ascii hdigits.forall_utf8Size rest) hdigits.hexNumber?
  | @signed l _ digits _ h hdigits =>
    have hascii : ∀ c ∈ '+' :: digits, c.utf8Size = 1 :=
      List.forall_mem_cons.mpr ⟨rfl, hdigits.forall_utf8Size⟩
    rw [List.cons_append, unescape_codePoint h]
    exact codePoint_eq_ok (takeBytes?_ascii hascii rest) ((hexNumber?_plus digits _).mpr hdigits)

/-- A code point that is read was written with its digits, or with a sign and one digit less. -/
theorem escape_of_codePoint {l c : Char} {width n : Nat} {rest : List Char}
    (hl : (l, width) ∈ codePoints) (h : codePoint l width rest = .ok (c, n)) :
    ∃ spelled s, l :: rest = spelled ++ s ∧ spelled.length = n ∧ Escape true spelled c := by
  rw [codePoint] at h
  split at h
  · cases h
  rename_i taken htaken
  split at h
  · cases h
  rename_i c' hc
  obtain ⟨rfl, rfl⟩ := Prod.mk.inj (Except.ok.inj h)
  obtain ⟨hlength, s, rfl⟩ := append_of_takeBytes? htaken
  obtain ⟨code, hnumber, hscalar⟩ := Option.bind_eq_some_iff.mp hc
  obtain rfl := scalar?_eq_some_iff.mp hscalar
  refine ⟨l :: taken, s, rfl, rfl, ?_⟩
  -- The width counts bytes, and a sign takes one of them like a digit does.
  by_cases hplus : ∃ digits, taken = '+' :: digits
  · obtain ⟨digits, rfl⟩ := hplus
    have hdigits := (hexNumber?_plus digits _).mp hnumber
    have hwidth : digits.length + 1 = width := by
      rw [← hlength, Text.utf8Length_cons, utf8Length_of_ascii hdigits.forall_utf8Size]
      exact Nat.add_comm _ _
    exact .signed rfl (hwidth ▸ hl) hdigits
  · have hdigits := (hexNumber?_of_ne_plus (fun _ heq => hplus ⟨_, heq⟩) _).mp hnumber
    have hwidth : taken.length = width :=
      (utf8Length_of_ascii hdigits.forall_utf8Size).symm.trans hlength
    exact .codePoint (hwidth ▸ hl) hdigits

/-- What is read behind a backslash is an escape. -/
theorem escape_of_unescape {rest : List Char} {c : Char} {n : Nat}
    (h : unescape rest = .ok (c, n)) :
    ∃ spelled s, rest = spelled ++ s ∧ spelled.length = n ∧ Escape true spelled c := by
  have letter {l d : Char} {s : List Char} (hl : (l, d) ∈ letters)
      (h : Except.ok (d, 1) = (.ok (c, n) : Except ParseCause (Char × Nat))) :
      ∃ spelled s', l :: s = spelled ++ s' ∧ spelled.length = n ∧ Escape true spelled c := by
    obtain ⟨rfl, rfl⟩ := Prod.mk.inj (Except.ok.inj h)
    exact ⟨[l], s, rfl, rfl, .letter hl⟩
  unfold Template.unescape at h
  split at h
  · cases h
  · exact letter (by decide) h
  · exact letter (by decide) h
  · exact letter (by decide) h
  · exact letter (by decide) h
  · exact letter (by decide) h
  · exact escape_of_codePoint (by decide) h
  · exact escape_of_codePoint (by decide) h
  · cases h

/-! ## The grammar -/

/-- Quoted text and the text that it denotes. -/
inductive Denotes (signs : Bool) : List Char → List Char → Prop
  | nil : Denotes signs [] []
  | marker {sign : Char} {s t : List Char} (hsign : isSign sign) (h : Denotes signs s t) :
      Denotes signs (sign :: sign :: '\x7b' :: s) (sign :: '\x7b' :: t)
  | escape {spelled s t : List Char} {c : Char} (hspelled : Escape signs spelled c)
      (h : Denotes signs s t) : Denotes signs ('\\' :: (spelled ++ s)) (c :: t)
  | other {c : Char} {s t : List Char} (hbackslash : c ≠ '\\')
      (hmarker : isSign c → s.head? ≠ some '\x7b') (h : Denotes signs s t) :
      Denotes signs (c :: s) (c :: t)

/-- A sign in front of a brace is no character of its own: it would have to be a marker. -/
theorem Denotes.head_ne_brace {signs : Bool} {sign : Char} {s t : List Char} (hsign : isSign sign)
    (h : Denotes signs (sign :: s) t) : s.head? ≠ some '\x7b' := by
  cases h with
  | marker hsign _ =>
    rcases hsign with rfl | rfl <;> simp
  | escape _ _ => exact absurd hsign (by simp [isSign])
  | other _ hmarker _ => exact hmarker hsign

/-- Text of the grammar does not complete a marker that a sign in front of it starts. -/
theorem Denotes.inert {signs : Bool} {sign : Char} {s t : List Char} (h : Denotes signs s t)
    (hsign : isSign sign) (hbrace : s.head? ≠ some '\x7b') : Inert sign s := by
  refine ⟨hbrace, ?_⟩
  rintro rest rfl
  exact h.head_ne_brace hsign rfl

/-! ## Signs of code points -/

/-- No code point of an escape is written with a sign. -/
def Unsigned : List Char → Prop
  | '\\' :: l :: rest => ¬(l ∈ codePoints.map Prod.fst ∧ rest.head? = some '+') ∧ Unsigned rest
  | _ :: rest => Unsigned rest
  | [] => True

/-- Only what stands behind a backslash can have a sign. -/
theorem unsigned_cons {c : Char} (hc : c ≠ '\\') (s : List Char) :
    Unsigned (c :: s) ↔ Unsigned s := by
  rw [Unsigned]
  rintro l rest rfl
  exact absurd rfl hc

/-- Digits are passed over in the search for signs. -/
theorem HexNumber.unsigned_append {digits : List Char} {n : Nat} (h : HexNumber digits n)
    (s : List Char) : Unsigned (digits ++ s) ↔ Unsigned s := by
  obtain ⟨values, hvalues, -⟩ := h
  induction hvalues with
  | nil => rfl
  | cons hv _ ih => rw [List.cons_append, unsigned_cons (hv.ne rfl), ih]

/-- What is an escape without signs is one where they are taken. -/
theorem Escape.mono {spelled : List Char} {c : Char} (h : Escape false spelled c) :
    Escape true spelled c := by
  cases h with
  | letter h => exact .letter h
  | codePoint h hdigits => exact .codePoint h hdigits
  | signed hsigns _ _ => cases hsigns

/-- An escape is without a sign exactly if it is one of the stricter grammar. -/
theorem Escape.unsigned_iff {spelled : List Char} {c : Char} (h : Escape true spelled c)
    (s : List Char) : Unsigned ('\\' :: (spelled ++ s)) ↔ Escape false spelled c ∧ Unsigned s := by
  cases h with
  | @letter l _ h =>
    have hl : l ∉ codePoints.map Prod.fst := letter_not_mem_codePoints _ h
    simp [Unsigned, hl, Escape.letter h]
  | @codePoint l _ digits h hdigits =>
    have hhead : (digits ++ s).head? ≠ some '+' := by
      cases digits with
      | nil => exact absurd h (by simp [codePoints])
      | cons d digits =>
        rintro hd
        obtain rfl : d = '+' := by simpa using hd
        exact hdigits.not_plus
    rw [List.cons_append, Unsigned, hdigits.unsigned_append]
    exact and_congr_left' ⟨fun _ => .codePoint h hdigits, fun _ hsign => hhead hsign.2⟩
  | @signed l _ digits _ h hdigits =>
    have hl : l ∈ codePoints.map Prod.fst := List.mem_map_of_mem h
    -- Read without signs, the plus sign would have to be a hexadecimal digit.
    have hspelled : ¬Escape false (l :: '+' :: digits) c := by
      intro hescape
      cases hescape with
      | codePoint _ hdigits => exact hdigits.not_plus
      | signed hsigns _ _ => cases hsigns
    simp [Unsigned, hl, hspelled]

/-- Without signs, the grammar is that of the text in which no escape has a sign. -/
theorem Denotes.unsigned_iff {s t : List Char} :
    Denotes false s t ↔ Denotes true s t ∧ Unsigned s := by
  have unsigned_marker {sign : Char} (hsign : isSign sign) (s : List Char) :
      Unsigned (sign :: sign :: '\x7b' :: s) ↔ Unsigned s := by
    have hne : sign ≠ '\\' := by rcases hsign with rfl | rfl <;> decide
    rw [unsigned_cons hne, unsigned_cons hne, unsigned_cons (by decide)]
  constructor
  · intro h
    -- Both directions go by induction on the grammar; only escapes differ.
    induction h with
    | nil => exact ⟨.nil, trivial⟩
    | marker hsign _ ih => exact ⟨.marker hsign ih.1, (unsigned_marker hsign _).mpr ih.2⟩
    | escape hspelled _ ih =>
      exact ⟨.escape hspelled.mono ih.1, (hspelled.mono.unsigned_iff _).mpr ⟨hspelled, ih.2⟩⟩
    | other hbackslash hmarker _ ih =>
      exact ⟨.other hbackslash hmarker ih.1, (unsigned_cons hbackslash _).mpr ih.2⟩
  · rintro ⟨h, hunsigned⟩
    induction h with
    | nil => exact .nil
    | marker hsign _ ih => exact .marker hsign (ih ((unsigned_marker hsign _).mp hunsigned))
    | escape hspelled _ ih =>
      obtain ⟨hspelled, hrest⟩ := (hspelled.unsigned_iff _).mp hunsigned
      exact .escape hspelled (ih hrest)
    | other hbackslash hmarker _ ih =>
      exact .other hbackslash hmarker (ih ((unsigned_cons hbackslash _).mp hunsigned))

/-! ## Text and interpolations -/

/-- A template with an interpolation has no text, wherever the interpolation stands. -/
theorem literal?_interpolation (parts : Template) (e : Expr) (rest : Template) :
    literal? (parts ++ .interpolation e :: rest) = none := by
  induction parts with
  | nil => rfl
  | cons part parts ih =>
    cases part with
    | interpolation e => rfl
    | text s => rw [List.cons_append, literal?, ih, Option.map_none]

/-- A template has a text exactly if nothing is interpolated. -/
theorem hasInterpolation_eq_false_iff {parts : Template} :
    parts.hasInterpolation = false ↔ ∃ text, parts.literal? = some text := by
  induction parts with
  | nil => simp [hasInterpolation, literal?]
  | cons part parts ih =>
    cases part with
    | interpolation e => simp [hasInterpolation, literal?]
    | text s =>
      have hcons : hasInterpolation (.text s :: parts) = hasInterpolation parts := rfl
      simp [hcons, ih, literal?]

end Deployment.Template

namespace Deployment.Expr

open Template

/-- The text of a single part, or of none, is that text. -/
theorem literal?_textPart (s : String) : (textPart s).literal? = some s := by
  by_cases hs : s = ""
  · subst hs
    rfl
  · simp [textPart, hs, Template.literal?]

/-- An escape is read as the character it denotes. -/
theorem parseTemplate_unescape {position : Nat} {literal : String} {c : Char}
    {spelled s : List Char} {signs : Bool} (h : Escape signs spelled c) :
    parseTemplate true position literal ('\\' :: (spelled ++ s)) =
      parseTemplate true (position + 1 + Text.utf8Length spelled) (literal.push c) s := by
  rw [parseTemplate, if_pos ⟨rfl, rfl⟩, h.unescape]
  · simp
  all_goals
    intro rest hbackslash
    exact absurd hbackslash (by decide)

/-- Text of the grammar is read as the text it denotes. -/
theorem parseTemplate_of_denotes {signs : Bool} {s t : List Char} (h : Denotes signs s t)
    (position : Nat) (literal : String) :
    parseTemplate true position literal s = .ok (textPart (literal ++ String.ofList t)) := by
  induction h generalizing position literal with
  | nil => simp [parseTemplate]
  | @marker sign s t hsign _ ih =>
    have hliteral : literal ++ String.ofList [sign, '\x7b'] ++ String.ofList t =
        literal ++ String.ofList (sign :: '\x7b' :: t) := by
      simp [← String.toList_inj]
    rw [← hliteral, ← ih (position + 3)]
    rcases hsign with rfl | rfl <;> rw [parseTemplate]
  | @escape spelled s t c hspelled _ ih =>
    have hliteral : literal.push c ++ String.ofList t = literal ++ String.ofList (c :: t) := by
      simp [← String.toList_inj]
    rw [parseTemplate_unescape hspelled, ih, hliteral]
  | @other c s t hbackslash hmarker h ih =>
    have hliteral : literal.push c ++ String.ofList t = literal ++ String.ofList (c :: t) := by
      simp [← String.toList_inj]
    rw [parseTemplate_cons (fun hc => hbackslash hc.2) fun hsign => h.inert hsign (hmarker hsign),
      ih, hliteral]

/-- What was read has only texts that the grammar gives, behind the text read before. -/
theorem parseTemplate_denotes (position : Nat) (literal : String) (s : List Char) :
    Ensures (parseTemplate true position literal s) fun parts =>
      ∀ text, parts.literal? = some text →
        ∃ t, Denotes true s t ∧ text = literal ++ String.ofList t := by
  generalize hs : s = source
  unfold parseTemplate
  -- The text before goes on by what the first step reads.
  have step (first : List Char) {parts : Template} {read text : String} {rest : List Char}
      (hread : read = literal ++ String.ofList first)
      (hstep : ∀ t, Denotes true rest t → Denotes true source (first ++ t))
      (ih : ∀ text, parts.literal? = some text →
        ∃ t, Denotes true rest t ∧ text = read ++ String.ofList t)
      (htext : parts.literal? = some text) :
      ∃ t, Denotes true source t ∧ text = literal ++ String.ofList t := by
    obtain ⟨t, ht, rfl⟩ := ih text htext
    refine ⟨first ++ t, hstep t ht, ?_⟩
    rw [hread, String.ofList_append, String.append_assoc]
  split
  · refine .ok fun text htext => ⟨[], .nil, ?_⟩
    rw [literal?_textPart] at htext
    simpa using htext.symm
  · exact (parseTemplate_denotes _ _ _).mono fun _ ih _ =>
      step ['$', '\x7b'] rfl (fun _ => .marker (.inl rfl)) ih
  · exact (parseTemplate_denotes _ _ _).mono fun _ ih _ =>
      step ['%', '\x7b'] rfl (fun _ => .marker (.inr rfl)) ih
  · split
    · exact .error _
    · refine .after fun e => .after fun parts => .ok fun text htext => ?_
      rw [literal?_interpolation] at htext
      cases htext
  · exact .error _
  · rename_i c rest _ _ hdollar hpercent
    split
    · rename_i hescape
      obtain ⟨-, rfl⟩ := hescape
      split
      · exact .error _
      · rename_i decoded n hunescape
        obtain ⟨spelled, s, rfl, rfl, hspelled⟩ := escape_of_unescape hunescape
        refine (parseTemplate_denotes _ _ _).mono fun _ ih _ =>
          step [decoded] rfl (fun _ ht => ?_) ih
        rw [List.drop_left] at ht
        exact .escape hspelled ht
    · rename_i hescape
      have hmarker : isSign c → rest.head? ≠ some '\x7b' := by
        rintro (rfl | rfl) hbrace
        · obtain ⟨rest', rfl⟩ := List.head?_eq_some_iff.mp hbrace
          exact hdollar rest' rfl rfl
        · obtain ⟨rest', rfl⟩ := List.head?_eq_some_iff.mp hbrace
          exact hpercent rest' rfl rfl
      exact (parseTemplate_denotes _ _ _).mono fun _ ih _ =>
        step [c] rfl (fun _ => .other (fun hc => hescape ⟨rfl, hc⟩) hmarker) ih
termination_by s.length
decreasing_by all_goals subst_vars; simp only [List.length_cons, List.length_drop]; omega

end Deployment.Expr

namespace Deployment.Template

/-- A text is read from quoted text exactly if the quoted text denotes it. -/
theorem parse_denotes_iff {s t : String} :
    (∃ parts, Template.parse s true = .ok parts ∧ parts.literal? = some t) ↔
      Denotes true s.toList t.toList := by
  constructor
  · rintro ⟨parts, hparse, htext⟩
    obtain ⟨t', ht', rfl⟩ := Expr.parseTemplate_denotes 0 "" s.toList parts hparse t htext
    simpa using ht'
  · intro h
    have hparse := Expr.parseTemplate_of_denotes h 0 ""
    rw [String.ofList_toList, String.empty_append] at hparse
    exact ⟨_, hparse, Expr.literal?_textPart t⟩

/-- Quoted text is read as a template without interpolations exactly if it is a sequence of escaped
markers, escapes and other characters, and the text of the template is what these denote. An escape
is what it should be up to one thing: a plus sign is taken for the first digit of a code point. -/
theorem parse_quoted_iff (s : String) :
    ((∃ parts, Template.parse s true = .ok parts ∧ hasInterpolation parts = false) ↔
      ∃ t, Denotes true s.toList t) ∧
    (∀ parts, Template.parse s true = .ok parts → hasInterpolation parts = false →
      ∀ t, parts.literal? = some t ↔ Denotes true s.toList t.toList) ∧
    ∀ t, Denotes false s.toList t ↔ Denotes true s.toList t ∧ Unsigned s.toList := by
  refine ⟨⟨?_, ?_⟩, fun parts hparse hplain t => ⟨?_, ?_⟩, fun t => Denotes.unsigned_iff⟩
  · rintro ⟨parts, hparse, hplain⟩
    obtain ⟨t, ht⟩ := hasInterpolation_eq_false_iff.mp hplain
    exact ⟨t.toList, parse_denotes_iff.mp ⟨parts, hparse, ht⟩⟩
  · rintro ⟨t, ht⟩
    rw [← String.toList_ofList (l := t)] at ht
    obtain ⟨parts, hparse, htext⟩ := parse_denotes_iff.mpr ht
    exact ⟨parts, hparse, hasInterpolation_eq_false_iff.mpr ⟨_, htext⟩⟩
  · intro ht
    exact parse_denotes_iff.mp ⟨parts, hparse, ht⟩
  · intro ht
    obtain ⟨parts', hparse', htext⟩ := parse_denotes_iff.mpr ht
    obtain rfl : parts = parts' := Except.ok.inj (hparse.symm.trans hparse')
    exact htext

/-- Quoted text with an escaped marker behind a sign, and code points of both widths. -/
def spelledOut : String :=
  "$$$\x7b\\n\\u00e9\\U0001F600"

theorem spelledOut_parse_quoted :
    Template.parse spelledOut true = .ok [.text "$$\x7b\né😀"] ∧
      Denotes false spelledOut.toList "$$\x7b\né😀".toList := by
  have hparse : Template.parse spelledOut true = .ok [.text "$$\x7b\né😀"] := by
    cbv
  have hunsigned : Unsigned spelledOut.toList := by
    simp [spelledOut, Unsigned, codePoints]
  obtain ⟨-, hdenotes, hsigns⟩ := parse_quoted_iff spelledOut
  exact ⟨hparse, (hsigns _).mpr ⟨(hdenotes _ hparse rfl _).mp rfl, hunsigned⟩⟩

/-- A plus sign and three digits are taken for a code point of four digits. -/
theorem signed_accepted : Template.parse "\\u+041" true = .ok [.text "A"] ∧
    ∀ t, ¬Denotes false "\\u+041".toList t := by
  refine ⟨by cbv, fun t h => ?_⟩
  have hunsigned := (Denotes.unsigned_iff.mp h).2
  simp [Unsigned, codePoints] at hunsigned

end Deployment.Template
