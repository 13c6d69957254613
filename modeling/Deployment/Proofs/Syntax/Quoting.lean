import Deployment.Expr.Parser
import Deployment.Proofs.Syntax.Pieces

/-! # Escaped text

`Template.written` is text as it stands in a template, with its markers escaped and, within quotes,
its special characters. Two readers walk over it: the search for the closing quote passes over it,
and the parser collects the text that was written. Both have to tell a sign of the text from the
start of a marker, so it matters what follows: text that ends in `$` in front of an interpolation
would be read as an escaped marker.
-/

namespace Deployment.Template

/-- How a character of text is written in a template. -/
def writtenChar (inQuotes : Bool) (c : Char) : List Char :=
  if inQuotes then escapeChar c else [c]

/-- Text as it is written in a template. -/
def written (inQuotes : Bool) : List Char → List Char
  | '$' :: '{' :: rest => '$' :: '$' :: '{' :: written inQuotes rest
  | '%' :: '{' :: rest => '%' :: '%' :: '{' :: written inQuotes rest
  | c :: rest => writtenChar inQuotes c ++ written inQuotes rest
  | [] => []

/-- The characters that are written as escapes within quotes. -/
def isSpecial (c : Char) : Prop :=
  c ∈ ['\\', '"', '\n', '\r', '\t']

instance (c : Char) : Decidable (isSpecial c) :=
  inferInstanceAs (Decidable (_ ∈ _))

/-- A character that is not special stands for itself. -/
theorem writtenChar_of_not_special {c : Char} (hc : ¬isSpecial c) (inQuotes : Bool) :
    writtenChar inQuotes c = [c] := by
  simp only [isSpecial, List.mem_cons, List.not_mem_nil, or_false, not_or] at hc
  cases inQuotes
  · rfl
  · rw [writtenChar, if_pos rfl, escapeChar] <;> simp_all

/-- A character stands for itself outside of quotes, and within them unless it is special. -/
theorem writtenChar_eq_singleton {inQuotes : Bool} {c : Char} (hc : ¬(isSpecial c ∧ inQuotes)) :
    writtenChar inQuotes c = [c] := by
  cases inQuotes with
  | false => rfl
  | true => exact writtenChar_of_not_special (by simpa using hc) true

/-- Signs that a marker may start with. -/
def isSign (c : Char) : Prop :=
  c = '$' ∨ c = '%'

/-- Where no marker starts, a character is written on its own. -/
theorem written_cons {c : Char} {rest : List Char} (h : isSign c → rest.head? ≠ some '\x7b')
    (inQuotes : Bool) :
    written inQuotes (c :: rest) = writtenChar inQuotes c ++ written inQuotes rest := by
  rw [written]
  · rintro t rfl rfl
    exact h (.inl rfl) rfl
  · rintro t rfl rfl
    exact h (.inr rfl) rfl

/-- Where no marker starts, nothing is escaped. -/
theorem escapeMarkers_cons {c : Char} {rest : List Char}
    (h : isSign c → rest.head? ≠ some '\x7b') :
    escapeMarkers (c :: rest) = c :: escapeMarkers rest := by
  rw [escapeMarkers]
  · rintro t rfl rfl
    exact h (.inl rfl) rfl
  · rintro t rfl rfl
    exact h (.inr rfl) rfl

/-- A special character is written as a backslash and another character, and read back from it. -/
theorem escapeChar_of_special {c : Char} (hc : isSpecial c) :
    ∃ d, escapeChar c = ['\\', d] ∧ ¬isSign d ∧ ∀ rest, unescape (d :: rest) = .ok (c, 1) := by
  simp only [isSpecial, List.mem_cons, List.not_mem_nil, or_false] at hc
  rcases hc with rfl | rfl | rfl | rfl | rfl
  · exact ⟨'\\', rfl, by simp [isSign], fun _ => rfl⟩
  · exact ⟨'"', rfl, by simp [isSign], fun _ => rfl⟩
  · exact ⟨'n', rfl, by simp [isSign], fun _ => rfl⟩
  · exact ⟨'r', rfl, by simp [isSign], fun _ => rfl⟩
  · exact ⟨'t', rfl, by simp [isSign], fun _ => rfl⟩

/-- Outside of quotes only the markers are escaped. -/
theorem escapeMarkers_eq_written (text : List Char) : escapeMarkers text = written false text := by
  fun_induction written false text with
  | case1 rest ih | case2 rest ih => rw [escapeMarkers, ih]
  | case3 c rest h₁ h₂ ih =>
    rw [escapeMarkers, ih]
    · rfl
    · exact h₁
    · exact h₂
  | case4 => rfl

/-- Within quotes special characters are escaped first and the markers then. This is the same as
escaping both at once, as an escape neither makes a marker nor breaks one. -/
theorem escapeMarkers_escapeQuoted_eq_written (text : List Char) :
    escapeMarkers (escapeQuoted text) = written true text := by
  -- Along the written text: a marker, another character, or the end.
  fun_induction written true text with
  | case1 rest ih | case2 rest ih =>
    rw [← ih, escapeQuoted, escapeQuoted, List.flatMap_cons, List.flatMap_cons]
    rfl
  | case3 c rest h₁ h₂ ih =>
    rw [← ih, escapeQuoted, List.flatMap_cons, ← escapeQuoted]
    by_cases hc : isSpecial c
    · obtain ⟨d, hd, hsign, -⟩ := escapeChar_of_special hc
      rw [writtenChar, if_pos rfl, hd, List.cons_append, List.cons_append, List.nil_append,
        escapeMarkers_cons (by simp [isSign]), escapeMarkers_cons (fun h => absurd h hsign)]
      rfl
    · have hchar := writtenChar_of_not_special hc true
      rw [writtenChar, if_pos rfl] at hchar
      rw [hchar, writtenChar_of_not_special hc, List.singleton_append, List.singleton_append]
      refine escapeMarkers_cons fun hsign => ?_
      -- No brace follows the sign, and escaping does not put one there.
      cases rest with
      | nil => simp [escapeQuoted]
      | cons d rest =>
        have hd : d ≠ '\x7b' := by
          rintro rfl
          rcases hsign with rfl | rfl
          · exact h₁ _ rfl rfl
          · exact h₂ _ rfl rfl
        rw [escapeQuoted, List.flatMap_cons]
        by_cases hspecial : isSpecial d
        · obtain ⟨x, hx, -, -⟩ := escapeChar_of_special hspecial
          simp [hx]
        · have hchar := writtenChar_of_not_special hspecial true
          rw [writtenChar, if_pos rfl] at hchar
          simp [hchar, hd]
  | case4 => rfl

/-- What the printer writes for plain text. -/
theorem written_toList (inQuotes : Bool) (s : String) :
    (if inQuotes then quoted s else plain s).toList = written inQuotes s.toList := by
  cases inQuotes with
  | false => simp [plain, escapeMarkers_eq_written]
  | true => simp [quoted, escapeMarkers_escapeQuoted_eq_written]

/-! ## What follows text -/

/-- What may follow text without changing how it is read: the end, a quote, or an interpolation
unless the text ends in a dollar sign. -/
structure Follows (text tail : List Char) : Prop where
  brace : tail.head? ≠ some '\x7b'
  directive : ∀ rest, tail ≠ '%' :: '\x7b' :: rest
  marker : ∀ rest, tail = '$' :: '\x7b' :: rest → text.getLast? ≠ some '$'

/-- A sign in front of this text starts no marker. -/
structure Inert (sign : Char) (s : List Char) : Prop where
  brace : s.head? ≠ some '\x7b'
  doubled : ∀ rest, s ≠ sign :: '\x7b' :: rest

/-- Text may end. -/
theorem Follows.nil (text : List Char) : Follows text [] :=
  ⟨by simp, by simp, by simp⟩

/-- A quote may follow every text. -/
theorem Follows.quote (text tail : List Char) : Follows text ('"' :: tail) :=
  ⟨by simp, by simp, by simp⟩

/-- What may follow a text may follow the end of it. -/
theorem Follows.of_cons {c : Char} {text tail : List Char} (h : Follows (c :: text) tail) :
    Follows text tail := by
  refine ⟨h.brace, h.directive, fun rest heq hlast => h.marker rest heq ?_⟩
  rw [List.getLast?_cons, hlast]
  rfl

/-- Text that does not start with a brace is not written with one at its start. -/
theorem written_head {t tail : List Char} (h : t.head? ≠ some '\x7b')
    (htail : tail.head? ≠ some '\x7b') (inQuotes : Bool) :
    (written inQuotes t ++ tail).head? ≠ some '\x7b' := by
  fun_cases written inQuotes t with
  | case1 rest | case2 rest => simp
  | case3 c rest h₁ h₂ =>
    have hc : c ≠ '\x7b' := by simpa using h
    by_cases hspecial : isSpecial c
    · cases inQuotes with
      | false => simpa [writtenChar] using hc
      | true =>
        obtain ⟨d, hd, -, -⟩ := escapeChar_of_special hspecial
        simp [writtenChar, hd]
    · simpa [writtenChar_of_not_special hspecial] using hc
  | case4 => simpa using htail

/-- No brace is behind a sign that starts no marker. -/
theorem head_ne_brace {c : Char} {rest : List Char} (hc : isSign c)
    (h₁ : ∀ t, c = '$' → rest = '\x7b' :: t → False)
    (h₂ : ∀ t, c = '%' → rest = '\x7b' :: t → False) : rest.head? ≠ some '\x7b' := by
  cases rest with
  | nil => simp
  | cons d t =>
    rintro hd
    obtain rfl : d = '\x7b' := by simpa using hd
    rcases hc with rfl | rfl
    · exact h₁ t rfl rfl
    · exact h₂ t rfl rfl

/-- Behind a sign of a text no marker is completed. -/
theorem inert_written {sign : Char} {text tail : List Char} (hsign : isSign sign)
    (h : text.head? ≠ some '\x7b') (htail : Follows (sign :: text) tail) (inQuotes : Bool) :
    Inert sign (written inQuotes text ++ tail) := by
  refine ⟨written_head h htail.brace inQuotes, fun rest heq => ?_⟩
  revert heq
  -- The text behind the sign starts with a marker of its own, with another character, or it is
  -- empty.
  fun_cases written inQuotes text with
  | case1 t | case2 t =>
    intro heq
    simp at heq
  | case3 c t h₁ h₂ =>
    intro heq
    by_cases hspecial : isSpecial c ∧ inQuotes
    · obtain ⟨d, hd, -, -⟩ := escapeChar_of_special hspecial.1
      simp only [writtenChar, hspecial.2, if_true, hd, List.cons_append, List.cons.injEq] at heq
      rcases hsign with rfl | rfl <;> exact absurd heq.1 (by decide)
    · have hchar := writtenChar_eq_singleton hspecial
      rw [hchar, List.append_assoc, List.singleton_append, List.cons.injEq] at heq
      obtain ⟨rfl, heq⟩ := heq
      refine written_head (t := t) (fun hbrace => ?_) htail.brace inQuotes (by rw [heq]; rfl)
      obtain ⟨t', rfl⟩ : ∃ t', t = '\x7b' :: t' := by
        cases t with
        | nil => cases hbrace
        | cons x t' => exact ⟨t', by simpa using hbrace⟩
      rcases hsign with rfl | rfl
      · exact h₁ _ rfl rfl
      · exact h₂ _ rfl rfl
  | case4 =>
    intro heq
    rw [List.nil_append] at heq
    rcases hsign with rfl | rfl
    · exact htail.marker rest heq rfl
    · exact htail.directive rest heq

/-! ## The search for the closing quote -/

/-- The search passes a character that is neither a backslash nor a quote and starts no marker. -/
theorem closing_quoted_cons {c : Char} {s : List Char} (hc : c ≠ '\\' ∧ c ≠ '"')
    (hs : isSign c → Inert c s) (outer : List Scope) :
    closing .quoted outer (c :: s) = (closing .quoted outer s).map (· + 1) := by
  obtain ⟨hbackslash, hquote⟩ := hc
  rw [closing]
  all_goals first
    | (intros; contradiction)
    | (rintro rest rfl rfl; exact (hs (.inl rfl)).brace rfl)
    | (rintro rest rfl rfl; exact (hs (.inr rfl)).brace rfl)
    | (rintro rest rfl rfl; exact (hs (.inl rfl)).doubled _ rfl)
    | (rintro rest rfl rfl; exact (hs (.inr rfl)).doubled _ rfl)

/-- The search for the closing quote passes over written text. -/
theorem closing_written (outer : List Scope) {text tail : List Char} (h : Follows text tail) :
    closing .quoted outer (written true text ++ tail) =
      (closing .quoted outer tail).map (· + (written true text).length) := by
  fun_induction written true text with
  | case1 rest ih | case2 rest ih =>
    simp only [List.cons_append]
    rw [closing, ih h.of_cons.of_cons, Option.map_map]
    rfl
  | case3 c rest h₁ h₂ ih =>
    rw [List.append_assoc]
    by_cases hspecial : isSpecial c
    · obtain ⟨d, hd, -, -⟩ := escapeChar_of_special hspecial
      simp only [writtenChar, if_true, hd, List.cons_append, List.nil_append]
      rw [closing, ih h.of_cons, Option.map_map]
      rfl
    · simp only [writtenChar_of_not_special hspecial, List.singleton_append]
      have hc : c ≠ '\\' ∧ c ≠ '"' := by
        constructor <;> rintro rfl <;> exact hspecial (by decide)
      rw [closing_quoted_cons hc, ih h.of_cons, Option.map_map]
      · rfl
      · exact fun hsign => inert_written hsign (head_ne_brace hsign h₁ h₂) h true
  | case4 => simp

end Deployment.Template

namespace Deployment.Expr

open Template

/-! ## Reading text back -/

/-- The reader takes a character as it is if it starts neither a marker nor, within quotes, an
escape. -/
theorem parseTemplate_cons {inQuotes : Bool} {position : Nat} {literal : String} {c : Char}
    {s : List Char} (hc : ¬(inQuotes ∧ c = '\\')) (hs : isSign c → Inert c s) :
    parseTemplate inQuotes position literal (c :: s) =
      parseTemplate inQuotes (position + c.utf8Size) (literal.push c) s := by
  rw [parseTemplate]
  · rw [if_neg hc]
  all_goals first
    | (rintro rest rfl rfl; exact (hs (.inl rfl)).brace rfl)
    | (rintro rest rfl rfl; exact (hs (.inr rfl)).brace rfl)
    | (rintro rest rfl rfl; exact (hs (.inl rfl)).doubled _ rfl)
    | (rintro rest rfl rfl; exact (hs (.inr rfl)).doubled _ rfl)

/-- The reader takes an escape for the character that it stands for. -/
theorem parseTemplate_escape {position : Nat} {literal : String} {c d : Char} {s : List Char}
    (h : unescape (d :: s) = .ok (c, 1)) :
    parseTemplate true position literal ('\\' :: d :: s) =
      parseTemplate true (position + 1 + Text.utf8Length [d]) (literal.push c) s := by
  rw [parseTemplate, if_pos ⟨rfl, rfl⟩, h]
  · rfl
  all_goals
    intro rest hbackslash
    exact absurd hbackslash (by decide)

/-- The parser collects written text. -/
theorem parseTemplate_written (inQuotes : Bool) (position : Nat) (literal : String)
    {text tail : List Char} (h : Follows text tail) :
    ∃ next, parseTemplate inQuotes position literal (written inQuotes text ++ tail) =
      parseTemplate inQuotes next (literal ++ String.ofList text) tail := by
  -- The literal that is collected and the position vary along the text.
  fun_induction written inQuotes text generalizing position literal with
  | case1 rest ih | case2 rest ih =>
    simp only [List.cons_append]
    rw [parseTemplate]
    obtain ⟨next, hnext⟩ := ih (position + 3) (literal ++ _) h.of_cons.of_cons
    refine ⟨next, hnext.trans (congrArg (parseTemplate _ _ · _) ?_)⟩
    rw [← String.toList_inj]
    simp
  | case3 c rest h₁ h₂ ih =>
    have hpush : literal.push c ++ String.ofList rest = literal ++ String.ofList (c :: rest) := by
      rw [← String.toList_inj]
      simp
    rw [List.append_assoc, ← hpush]
    by_cases hspecial : isSpecial c ∧ inQuotes
    · obtain ⟨hspecial, rfl⟩ := hspecial
      obtain ⟨d, hd, -, hunescape⟩ := escapeChar_of_special hspecial
      simp only [writtenChar, if_true, hd, List.cons_append, List.nil_append]
      rw [parseTemplate_escape (hunescape _)]
      exact ih _ _ h.of_cons
    · have hchar := writtenChar_eq_singleton hspecial
      have hc : ¬(inQuotes ∧ c = '\\') := by
        rintro ⟨hquotes, rfl⟩
        exact hspecial ⟨by decide, hquotes⟩
      rw [hchar, List.singleton_append, parseTemplate_cons hc]
      · exact ih _ _ h.of_cons
      · exact fun hsign => inert_written hsign (head_ne_brace hsign h₁ h₂) h inQuotes
  | case4 => exact ⟨position, by simp⟩

end Deployment.Expr
