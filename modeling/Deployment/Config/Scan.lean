import Deployment.Config.Term
import Deployment.Decimal.Notation
import Deployment.Template.Escape

/-! # Scanning configuration source

The pieces of source that need no recursion: blanks and comments, names, numbers and escapes. Every
scanner answers with the rest of the text, which is never longer than the text it was given.
-/

namespace Deployment.Config

/-- Something read from a text, with the rest of the text, which is shorter than a bound. -/
structure Read (α : Type) (bound : Nat) where
  value : α
  rest : List Char
  lt : rest.length < bound

/-- Widens the bound. -/
def Read.widen {α : Type} {a b : Nat} (r : Read α a) (h : a ≤ b) : Read α b :=
  ⟨r.value, r.rest, Nat.lt_of_lt_of_le r.lt h⟩

/-! ## Blanks and comments -/

/-- The rest of a text behind the end of a comment. -/
def afterComment? : List Char → Option (List Char)
  | [] => none
  | '*' :: '/' :: rest => some rest
  | _ :: rest => afterComment? rest

theorem afterComment?_le {s rest : List Char} (h : afterComment? s = some rest) :
    rest.length ≤ s.length := by
  fun_induction afterComment? s <;> grind

/-- The rest of a text from the end of its first line on. A carriage return belongs to the end of a
line; elsewhere it has no place in a comment. -/
def lineEnd? : List Char → Option (List Char)
  | [] => some []
  | '\n' :: rest => some ('\n' :: rest)
  | '\r' :: '\n' :: rest => some ('\r' :: '\n' :: rest)
  | '\r' :: _ => none
  | _ :: rest => lineEnd? rest

theorem lineEnd?_le {s rest : List Char} (h : lineEnd? s = some rest) :
    rest.length ≤ s.length := by
  fun_induction lineEnd? s <;> grind

theorem of_ite_none {α : Type} {p : Prop} [Decidable p] {x : Option α} {a : α}
    (h : (if p then x else none) = some a) : x = some a := by
  split at h
  · exact h
  · simp at h

/-- Skips blanks and comments within a line; with `lines`, also line breaks and the comments that
end a line. -/
def skip (lines : Bool) (s : List Char) : List Char :=
  match s with
  | '/' :: '*' :: rest =>
    match h : afterComment? rest with
    | some rest' =>
      have := afterComment?_le h
      skip lines rest'
    | none => s
  | '/' :: '/' :: rest =>
    match h : if lines then lineEnd? rest else none with
    | some rest' =>
      have := lineEnd?_le (of_ite_none h)
      skip lines rest'
    | none => s
  | '#' :: rest =>
    match h : if lines then lineEnd? rest else none with
    | some rest' =>
      have := lineEnd?_le (of_ite_none h)
      skip lines rest'
    | none => s
  | c :: rest =>
    if c = ' ' ∨ c = '\t' ∨ (lines ∧ (c = '\n' ∨ c = '\r')) then skip lines rest else s
  | [] => []
termination_by s.length
decreasing_by all_goals simp <;> omega

theorem skip_le (lines : Bool) (s : List Char) : (skip lines s).length ≤ s.length := by
  fun_induction skip lines s <;> grind

/-- The rest of a text behind a line break. -/
def newline? : List Char → Option (List Char)
  | '\n' :: rest => some rest
  | '\r' :: '\n' :: rest => some rest
  | _ => none

theorem newline?_lt {s rest : List Char} (h : newline? s = some rest) :
    rest.length < s.length := by
  revert h
  fun_cases newline? s <;> intro h <;> cases h <;> simp only [List.length_cons] <;> omega

/-- Skips a comment that ends the line. -/
def skipLineComment : List Char → List Char
  | '#' :: rest => (lineEnd? rest).getD ('#' :: rest)
  | '/' :: '/' :: rest => (lineEnd? rest).getD ('/' :: '/' :: rest)
  | s => s

theorem getD_lineEnd?_le {s t : List Char} (h : s.length ≤ t.length) :
    ((lineEnd? s).getD t).length ≤ t.length := by
  cases hs : lineEnd? s with
  | none => exact Nat.le_refl _
  | some rest => exact Nat.le_trans (lineEnd?_le hs) h

theorem skipLineComment_le (s : List Char) : (skipLineComment s).length ≤ s.length := by
  fun_cases skipLineComment s
  · exact getD_lineEnd?_le (Nat.le_succ _)
  · exact getD_lineEnd?_le (Nat.le_succ_of_le (Nat.le_succ _))
  · exact Nat.le_refl _

/-! ## Names and symbols -/

/-- A name starts with a letter or an underscore. -/
def startsName (c : Char) : Bool :=
  c.isAlpha || c == '_'

/-- After its first character a name may hold digits and dashes. -/
def continuesName (c : Char) : Bool :=
  c.isAlphanum || c == '_' || c == '-'

theorem dropWhile_lt (p : Char → Bool) (c : Char) (s : List Char) :
    (s.dropWhile p).length < (c :: s).length :=
  Nat.lt_succ_of_le (List.dropWhile_suffix p).length_le

/-- The name at the start of a text. -/
def name? : (s : List Char) → Option (Read String s.length)
  | [] => none
  | c :: rest =>
    if startsName c then
      some ⟨String.ofList (c :: rest.takeWhile continuesName), rest.dropWhile continuesName,
        dropWhile_lt continuesName c rest⟩
    else none

theorem drop_lt_of_isPrefixOf {word s : List Char} (h : word ≠ [] ∧ word.isPrefixOf s = true) :
    (s.drop word.length).length < s.length := by
  have hle := (List.isPrefixOf_iff_prefix.mp h.2).length_le
  have hpos := List.length_pos_iff.mpr h.1
  rw [List.length_drop]
  omega

/-- The rest of a text behind a given keyword. A further name may follow without a blank. -/
def keyword? (keyword : String) (s : List Char) : Option { r : List Char // r.length < s.length } :=
  if h : keyword.toList ≠ [] ∧ keyword.toList.isPrefixOf s = true then
    some ⟨s.drop keyword.toList.length, drop_lt_of_isPrefixOf h⟩
  else none

/-- The rest of a text behind the keyword of a `for` expression. A blank or a comment has to follow,
otherwise it is a name. -/
def forKeyword? (s : List Char) : Option { r : List Char // r.length < s.length } :=
  match keyword? "for" s with
  | some rest =>
    match rest.1 with
    | c :: _ => if c = ' ' ∨ c = '\t' ∨ c = '#' ∨ c = '/' then some rest else none
    | [] => none
  | none => none

/-- The rest of a text behind a given character. -/
def char? (c : Char) : (s : List Char) → Option { r : List Char // r.length < s.length }
  | d :: rest => if d = c then some ⟨rest, by simp⟩ else none
  | [] => none

/-- The binary operator at the start of a text. The slashes of a comment are no operator. -/
def operator? : (s : List Char) → Option (Read BinaryOp s.length)
  | '|' :: '|' :: rest => some ⟨.or, rest, by grind⟩
  | '&' :: '&' :: rest => some ⟨.and, rest, by grind⟩
  | '=' :: '=' :: rest => some ⟨.equal, rest, by grind⟩
  | '!' :: '=' :: rest => some ⟨.notEqual, rest, by grind⟩
  | '<' :: '=' :: rest => some ⟨.order .lessEqual, rest, by grind⟩
  | '>' :: '=' :: rest => some ⟨.order .greaterEqual, rest, by grind⟩
  | '<' :: rest => some ⟨.order .less, rest, by simp⟩
  | '>' :: rest => some ⟨.order .greater, rest, by simp⟩
  | '+' :: rest => some ⟨.arithmetic .add, rest, by simp⟩
  | '-' :: rest => some ⟨.arithmetic .sub, rest, by simp⟩
  | '*' :: rest => some ⟨.arithmetic .mul, rest, by simp⟩
  | '/' :: '/' :: _ => none
  | '/' :: '*' :: _ => none
  | '/' :: rest => some ⟨.arithmetic .div, rest, by simp⟩
  | '%' :: rest => some ⟨.arithmetic .mod, rest, by simp⟩
  | _ => none

/-! ## Numbers -/

/-- The digits at the start of a text and the rest. -/
def digits (s : List Char) : List Char × List Char :=
  (s.takeWhile Char.isDigit, s.dropWhile Char.isDigit)

theorem digits_le (s : List Char) : (digits s).2.length ≤ s.length :=
  (List.dropWhile_suffix Char.isDigit).length_le

/-- Whether a text starts with a digit. -/
def startsWithDigit : List Char → Bool
  | c :: _ => c.isDigit
  | [] => false

/-- The fraction at the start of a text: a point and digits, without the point. -/
def fraction (s : List Char) : List Char × List Char :=
  match s with
  | '.' :: rest => if (digits rest).1.isEmpty then ([], s) else digits rest
  | s => ([], s)

theorem fraction_le (s : List Char) : (fraction s).2.length ≤ s.length := by
  unfold fraction
  split
  · split
    · exact Nat.le_refl _
    · exact Nat.le_succ_of_le (digits_le _)
  · exact Nat.le_refl _

/-- The exponent at the start of a text and the rest. A letter `e` without digits is none. -/
def exponent (s : List Char) : Option Int × List Char :=
  match s with
  | e :: rest =>
    if e = 'e' ∨ e = 'E' then
      let (negative, unsigned) :=
        match rest with
        | '-' :: rest => (true, rest)
        | '+' :: rest => (false, rest)
        | rest => (false, rest)
      if (digits unsigned).1.isEmpty then (none, s)
      else
        let n : Int := Decimal.natOfDigits (digits unsigned).1
        (some (if negative then -n else n), (digits unsigned).2)
    else (none, s)
  | [] => (none, [])

theorem exponent_le (s : List Char) : (exponent s).2.length ≤ s.length := by
  have hle : ∀ t : List Char, (digits t).2.length ≤ t.length := digits_le
  unfold exponent
  split
  · rename_i e rest
    split
    · split
      rename_i negative unsigned heq
      have hu : unsigned.length ≤ rest.length := by
        split at heq <;> grind
      split
      · exact Nat.le_refl _
      · exact Nat.le_trans (hle _) (Nat.le_succ_of_le hu)
    · exact Nat.le_refl _
  · exact Nat.le_refl _

/-- A decimal as a numeral: a whole number that fits 64 bits without a sign is an integer. -/
def Numeral.ofDecimal (x : Float) : Numeral :=
  match Decimal.whole? x with
  | some n => if n < UInt64.size then .integer n else .decimal x
  | none => .decimal x

/-- The negated numeral. It stays an integer if it fits 64 bits with their sign. -/
def Numeral.negate : Numeral → Numeral
  | .integer n =>
    if Int64.minValue.toInt ≤ -n then .integer (-n) else .decimal (-(Float.ofInt n))
  | .decimal x => .decimal (-x)

/-- The number that digits, a fraction and an exponent denote. Digits alone have to fit 64 bits
without a sign, decimals have to be finite. -/
def Numeral.ofParts? (whole part : List Char) (e : Option Int) : Option Numeral :=
  let significand := Decimal.natOfDigits (whole ++ part)
  if part.isEmpty ∧ e = none then
    if significand < UInt64.size then some (.integer significand) else none
  else
    let x := Decimal.nearest significand (e.getD 0 - part.length)
    if x.isFinite then some (.ofDecimal x) else none

theorem number?_le (s : List Char) :
    (exponent (fraction (digits s).2).2).2.length < s.length + 1 :=
  Nat.lt_succ_of_le
    (Nat.le_trans (exponent_le _) (Nat.le_trans (fraction_le _) (digits_le s)))

/-- The number at the start of a text: digits, an optional fraction and an optional exponent. -/
def number? (s : List Char) : Option (Read Numeral (s.length + 1)) :=
  let afterDigits := (digits s).2
  let afterFraction := (fraction afterDigits).2
  match Numeral.ofParts? (digits s).1 (fraction afterDigits).1 (exponent afterFraction).1 with
  | some n => some ⟨n, (exponent afterFraction).2, number?_le s⟩
  | none => none

/-- The position at the start of a text: a zero, or digits that do not start with one and fit 64
bits. -/
def position? (s : List Char) : Option (Read Nat s.length) :=
  match s with
  | '0' :: rest => some ⟨0, rest, Nat.lt_succ_self _⟩
  | c :: rest =>
    if c.isDigit then
      let n := Decimal.natOfDigits (c :: rest.takeWhile Char.isDigit)
      if n < UInt64.size then
        some ⟨n, rest.dropWhile Char.isDigit, dropWhile_lt Char.isDigit c rest⟩
      else none
    else none
  | [] => none

/-! ## Escapes -/

/-- The character of a code point written with the given number of hexadecimal digits. -/
def codePoint? (width : Nat) (s : List Char) : Option (Char × Nat) := do
  let written := s.take width
  if written.length < width then none
  else
    let code ← written.foldlM (fun n c => (Template.hexDigit? c).map (16 * n + ·)) 0
    let c ← Template.scalar? code
    some (c, width + 1)

/-- Reads an escape from behind its backslash: the character it stands for and the number of
characters that spell it. -/
def escape? : List Char → Option (Char × Nat)
  | 'n' :: _ => some ('\n', 1)
  | 'r' :: _ => some ('\r', 1)
  | 't' :: _ => some ('\t', 1)
  | 'b' :: _ => some ('\x08', 1)
  | 'f' :: _ => some ('\x0c', 1)
  | '"' :: _ => some ('"', 1)
  | '\\' :: _ => some ('\\', 1)
  | '/' :: _ => some ('/', 1)
  | 'u' :: rest => codePoint? 4 rest
  | 'U' :: rest => codePoint? 8 rest
  | _ => none

end Deployment.Config
