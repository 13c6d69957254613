import Deployment.Proofs.Syntax.Reconstruction

/-! # Expression texts within texts

A text may hold texts that are read on their own: an interpolation of a template is read as an
expression, and quoted text of an expression as a template again. `Subtext` is one such step,
together with the byte offset at which the subtext starts, and `ExpressionText` are the expressions
at any depth. Each of them is a slice of the text at its offset (`ExpressionText.slice`), and the
subtexts of a text do not touch each other (`Subtext.apart`). So the expression texts around a
position lie within each other, and one of them at most is the `Innermost` (`Innermost.unique`).
-/

namespace Deployment

open Template (closing)
open Text (utf8Length SliceAt)
open Token (tokenize)

/-! ## Subtexts -/

/-- What a text is read as. -/
inductive Reading
  | expression
  | template (inQuotes : Bool)

/-- How many characters the piece takes that template text starts with: an escaped marker, an
interpolation, an escape or any other character. Nothing is read behind a directive, an escape
without a meaning or an interpolation without an end. -/
def Template.pieceLength? (inQuotes : Bool) : List Char → Option Nat
  | [] => none
  | '$' :: '$' :: '{' :: _ => some 3
  | '%' :: '%' :: '{' :: _ => some 3
  | '$' :: '{' :: rest => (closing .braces [] rest).map (· + 3)
  | '%' :: '{' :: _ => none
  | c :: rest =>
    if inQuotes ∧ c = '\\' then (unescape rest).toOption.map fun escape => escape.2 + 1 else some 1

/-- A text that is read on its own within another one, and the byte offset at which it starts. Both
come with what they are read as. -/
inductive Subtext : Reading → List Char → Nat → Reading → List Char → Prop
  /-- What stands behind the first piece of template text is template text. -/
  | behind {inQuotes : Bool} {s : List Char} {n : Nat}
      (hn : Template.pieceLength? inQuotes s = some n) :
      Subtext (.template inQuotes) s (utf8Length (s.take n)) (.template inQuotes) (s.drop n)
  | interpolation {inQuotes : Bool} {rest : List Char} {n : Nat}
      (hn : closing .braces [] rest = some n) :
      Subtext (.template inQuotes) ('$' :: '\x7b' :: rest) 2 .expression (rest.take n)
  | quoted {s content : List Char} {start : Nat}
      {tokens : { tokens : List Spanned // Spanned.totalWeight tokens ≤ s.length }}
      (htokens : tokenize s = .ok tokens) (hmem : ⟨.quoted content, start⟩ ∈ tokens.val) :
      Subtext .expression s (start + 1) (.template true) content

/-- The expression texts in a text, at any depth, and the byte offsets at which they start. -/
inductive ExpressionText : Reading → List Char → Nat → List Char → Prop
  | self (s : List Char) : ExpressionText .expression s 0 s
  | part {r r' : Reading} {s s' content : List Char} {base offset : Nat}
      (h : Subtext r s base r' s') (hcontent : ExpressionText r' s' offset content) :
      ExpressionText r s (base + offset) content

/-- A position is in the text that starts at the offset, or at its end. -/
def Around (p offset : Nat) (content : List Char) : Prop :=
  offset ≤ p ∧ p ≤ offset + utf8Length content

/-- An expression text around a position that lies within all others around it. -/
structure Innermost (r : Reading) (s : List Char) (p offset : Nat) (content : List Char) :
    Prop where
  isExpression : ExpressionText r s offset content
  around : Around p offset content
  within : ∀ {offset' : Nat} {content' : List Char}, ExpressionText r s offset' content' →
    Around p offset' content' →
      offset' ≤ offset ∧ offset + utf8Length content ≤ offset' + utf8Length content'

section Nesting

variable {r r' r₁ r₂ : Reading} {s s' s₁ s₂ content content' : List Char}
  {base base₁ base₂ offset offset' p n : Nat}

/-! ## Slices -/

/-- A subtext is a slice of the text. -/
theorem Subtext.slice (h : Subtext r s base r' s') : SliceAt s base s' := by
  cases h with
  | @behind _ _ n => exact ⟨s.take n, [], by simp, rfl⟩
  | @interpolation _ rest n => exact ⟨['$', '\x7b'], rest.drop n, by simp, rfl⟩
  | @quoted _ _ start _ htokens hmem =>
    obtain ⟨heof, -⟩ | ⟨written, hslice, hwritten⟩ := Token.writtenAt_of_tokenize htokens hmem
    · cases heof
    · cases hwritten
      exact hslice.trans ⟨['"'], ['"'], by simp, rfl⟩

/-- An expression text is a slice of the text. -/
theorem ExpressionText.slice (h : ExpressionText r s offset content) :
    SliceAt s offset content := by
  induction h with
  | self s => exact .refl s
  | part h _ ih => exact h.slice.trans ih

/-! ## Subtexts beside each other -/

theorem Template.pieceLength?_interpolation (inQuotes : Bool) {rest : List Char}
    (hn : closing .braces [] rest = some n) :
    pieceLength? inQuotes ('$' :: '\x7b' :: rest) = some (n + 3) := by
  rw [pieceLength?, hn]
  rfl

/-- An interpolation takes its expression, the two bytes in front of it and one behind it. -/
theorem Template.utf8Length_interpolation {rest : List Char}
    (hn : closing .braces [] rest = some n) :
    utf8Length (('$' :: '\x7b' :: rest).take (n + 3)) = 2 + utf8Length (rest.take n) + 1 := by
  have hbrace : utf8Length (rest.take (n + 1)) = utf8Length (rest.take n) + 1 := by
    rw [List.take_add_one, (closes_iff.mpr hn).getElem?_eq, Text.utf8Length_append]
    rfl
  rw [show ('$' :: '\x7b' :: rest).take (n + 3) = ['$', '\x7b'] ++ rest.take (n + 1) from rfl,
    Text.utf8Length_append, hbrace]
  rfl

theorem Template.interpolation_lt_behind {inQuotes : Bool} {rest : List Char} {m : Nat}
    (hm : closing .braces [] rest = some m)
    (hn : pieceLength? inQuotes ('$' :: '\x7b' :: rest) = some n) :
    2 + utf8Length (rest.take m) < utf8Length (('$' :: '\x7b' :: rest).take n) := by
  obtain rfl := Option.some.inj ((pieceLength?_interpolation inQuotes hm).symm.trans hn)
  rw [utf8Length_interpolation hm]
  exact Nat.lt_succ_self _

/-- Two subtexts of a text are the same one, or there is something between them. -/
theorem Subtext.apart (h₁ : Subtext r s base₁ r₁ s₁) (h₂ : Subtext r s base₂ r₂ s₂) :
    (base₁ = base₂ ∧ r₁ = r₂ ∧ s₁ = s₂) ∨
      base₁ + utf8Length s₁ < base₂ ∨ base₂ + utf8Length s₂ < base₁ := by
  cases h₁ with
  | behind hn₁ =>
    cases h₂ with
    | behind hn₂ =>
      obtain rfl := Option.some.inj (hn₁.symm.trans hn₂)
      exact .inl ⟨rfl, rfl, rfl⟩
    | interpolation hn₂ => exact .inr (.inr (Template.interpolation_lt_behind hn₂ hn₁))
  | interpolation hn₁ =>
    cases h₂ with
    | behind hn₂ => exact .inr (.inl (Template.interpolation_lt_behind hn₁ hn₂))
    | interpolation hn₂ =>
      obtain rfl := Option.some.inj (hn₁.symm.trans hn₂)
      exact .inl ⟨rfl, rfl, rfl⟩
  | quoted htokens₁ hmem₁ =>
    cases h₂ with
    | quoted htokens₂ hmem₂ =>
      obtain rfl := Except.ok.inj (htokens₁.symm.trans htokens₂)
      obtain heq | h | h := (Token.restores_of_tokenize htokens₁).apart hmem₁ hmem₂
      · cases heq
        exact .inl ⟨rfl, rfl, rfl⟩
      · have hle := h.quoted
        dsimp only at hle
        exact .inr (.inl (by omega))
      · have hle := h.quoted
        dsimp only at hle
        exact .inr (.inr (by omega))

/-! ## The innermost expression -/

/-- There is one innermost expression text around a position. -/
theorem Innermost.unique (h : Innermost r s p offset content)
    (h' : Innermost r s p offset' content') : offset = offset' ∧ content = content' := by
  obtain ⟨hle, hend⟩ := h.within h'.isExpression h'.around
  obtain ⟨hle', hend'⟩ := h'.within h.isExpression h.around
  obtain rfl := Nat.le_antisymm hle' hle
  exact ⟨rfl, h.isExpression.slice.unique h'.isExpression.slice (by omega)⟩

/-- What is innermost in a subtext is innermost in the whole text. -/
theorem Innermost.of_subtext (h : Subtext r s base r' s') (hin : Innermost r' s' p offset content) :
    Innermost r s (base + p) (base + offset) content where
  isExpression := .part h hin.isExpression
  around := by
    obtain ⟨hstart, hend⟩ := hin.around
    exact ⟨by omega, by omega⟩
  within {offset' content'} hcontent' haround := by
    have hle := hin.isExpression.slice.le
    obtain ⟨hstart, hend⟩ := hin.around
    obtain ⟨hstart', hend'⟩ := haround
    cases hcontent' with
    | self =>
      have hwhole := h.slice.le
      omega
    | @part _ _ _ _ _ base₂ offset₂ h₂ hcontent₂ =>
      have hle₂ := hcontent₂.slice.le
      obtain ⟨rfl, rfl, rfl⟩ | hlt | hlt := h.apart h₂
      · obtain ⟨hin₁, hin₂⟩ := hin.within hcontent₂ ⟨by omega, by omega⟩
        omega
      · omega
      · omega

/-- Around a token no quoted text is further inside, so the whole expression is innermost. -/
theorem Innermost.of_mem {t : Token}
    {tokens : { tokens : List Spanned // Spanned.totalWeight tokens ≤ s.length }}
    (htokens : tokenize s = .ok tokens) (hmem : ⟨t, p⟩ ∈ tokens.val) :
    Innermost .expression s p 0 s where
  isExpression := .self s
  around := by
    obtain ⟨-, rfl⟩ | ⟨written, hslice, -⟩ := Token.writtenAt_of_tokenize htokens hmem
    · exact ⟨Nat.zero_le _, Nat.le_of_eq (Nat.zero_add _).symm⟩
    · have hle := hslice.le
      exact ⟨Nat.zero_le _, by omega⟩
  within {offset' content'} hcontent' haround := by
    obtain ⟨hstart, hend⟩ := haround
    cases hcontent' with
    | self => exact ⟨Nat.le_refl _, Nat.le_refl _⟩
    | part h hcontent' =>
      -- A text within quoted text starts behind the quote and ends in front of the other one.
      have hle := hcontent'.slice.le
      cases h with
      | quoted htokens' hmem' =>
        obtain rfl := Except.ok.inj (htokens.symm.trans htokens')
        obtain heq | hbefore | hbefore := (Token.restores_of_tokenize htokens).apart hmem hmem'
        · cases heq
          omega
        · have hlt := hbefore.lt
          dsimp only at hlt
          omega
        · have hlt := hbefore.quoted
          dsimp only at hlt
          omega

end Nesting

end Deployment
