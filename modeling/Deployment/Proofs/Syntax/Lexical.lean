import Deployment.Proofs.Syntax.Derivation
import Deployment.Proofs.Syntax.Rendering

/-! # What the parser returns

Every expression that was read is *lexical*: its names are names of the lexer, a reference and a
call never start with the word for a value, and a template holds no text that is empty or that
another text continues. It is also *built* from tokens: a literal in it is never a list or a map, and
a template is never plain text. The rules of the grammar keep both, if the tokens are those of the
lexer.
-/

namespace Deployment

/-! ## Templates and expressions -/

/-- A value that a single token stands for. Numbers are read from their spelling. -/
inductive Value.Atomic : Value → Prop
  | null : Atomic .null
  | bool (b : Bool) : Atomic (.bool b)
  | number {n : Number} {spelling : String} (hspelling : Token.Unsigned spelling)
      (h : Number.parse? spelling = some n) : Atomic (.number n)
  | text (s : String) : Atomic (.text s)

namespace Template

/-- An interpolation comes first. -/
def Interpolates : Template → Prop
  | .interpolation _ :: _ => True
  | _ => False

/-- No text of the template is empty, and no text is continued by another. -/
def Apart : Template → Prop
  | [] => True
  | .interpolation _ :: rest => Apart rest
  | .text s :: rest => s ≠ "" ∧ (rest = [] ∨ Interpolates rest) ∧ Apart rest

/-- No text ends in a dollar sign in front of an interpolation. -/
def Unmarked : Template → Prop
  | [] => True
  | .interpolation _ :: rest => Unmarked rest
  | .text s :: rest => (Interpolates rest → s.toList.getLast? ≠ some '$') ∧ Unmarked rest

/-- Texts that are not continued and end in no dollar sign in front of an interpolation are read
back one by one. -/
theorem separated_of_apart {parts : Template} (h : parts.Apart) (h' : parts.Unmarked) :
    parts.Separated := by
  induction parts with
  | nil => trivial
  | cons part rest ih =>
    cases part with
    | interpolation e => exact ih h h'
    | text s =>
      obtain ⟨hne, hnext, hrest⟩ := h
      refine ⟨hne, ?_, ih hrest h'.2⟩
      match rest, hnext with
      | [], _ => trivial
      | .interpolation e :: rest, _ => exact h'.1 trivial
      | .text t :: rest, hnext => exact absurd hnext (by simp [Interpolates])

end Template

namespace Expr

/-- A node with names of the lexer, as the parser builds it. -/
def Lexical : Expr → Prop
  | .template parts => Template.Apart parts
  | .reference r => Text.IsRoot r.root ∧ ∀ name ∈ r.path, Text.IsName name
  | .attribute _ name => Text.IsName name
  | .call name _ => Text.IsRoot name
  | _ => True

/-- A node as the parser builds it: a lexical one, a literal only for a single token, and a template
only if something is interpolated. -/
def Built : Expr → Prop
  | .literal v => v.Atomic
  | .template parts => Template.Apart parts ∧ Template.literal? parts = none
  | e => e.Lexical

/-- What is built from tokens is lexical. -/
theorem Built.lexical {e : Expr} (h : e.Built) : e.Lexical := by
  cases e using induct with
  | literal v => trivial
  | template parts => exact h.1
  | _ => exact h

/-- A literal for a single token has no other nodes. -/
theorem built_literal {v : Value} (h : v.Atomic) : (literal v).Everywhere Built :=
  .intro h (by simp [children])

/-- A template as the parser builds it from plain text it has read and the text that is left. -/
structure ReadFrom (inQuotes : Bool) (literal : String) (s : List Char) (parts : Template) :
    Prop where
  apart : parts.Apart
  built : ∀ e, .interpolation e ∈ parts → e.Everywhere Built
  -- Outside of quotes a dollar sign in front of a marker escapes it.
  unmarked : inQuotes = false →
    (literal.toList.getLast? = some '$' → ∀ rest, s ≠ '$' :: '\x7b' :: rest) → parts.Unmarked

namespace ReadFrom

variable {inQuotes : Bool} {literal : String} {s : List Char} {parts : Template} {e : Expr}

/-- At the end the template is the plain text that was read, if there is any. -/
theorem nil : ReadFrom inQuotes literal [] (textPart literal) := by
  unfold textPart
  split
  · exact ⟨trivial, by simp, fun _ _ => trivial⟩
  · rename_i hne
    exact ⟨⟨by simpa using hne, .inl rfl, trivial⟩, by simp,
      fun _ _ => ⟨by simp [Template.Interpolates], trivial⟩⟩

/-- An interpolation ends the plain text in front of it, and the template goes on with no plain
text. -/
theorem interpolation {rest : List Char} (h : ReadFrom inQuotes "" s parts)
    (he : e.Everywhere Built) :
    ReadFrom inQuotes literal ('$' :: '\x7b' :: rest)
      (textPart literal ++ .interpolation e :: parts) := by
  have hunmarked (hquotes : inQuotes = false) : parts.Unmarked := h.unmarked hquotes (by simp)
  have hbuilt (e' : Expr) (he' : .interpolation e' ∈ Part.interpolation e :: parts) :
      e'.Everywhere Built := by
    rcases List.mem_cons.mp he' with heq | hmem
    · cases heq
      exact he
    · exact h.built e' hmem
  unfold textPart
  split
  · exact ⟨h.apart, hbuilt, fun hquotes _ => hunmarked hquotes⟩
  · rename_i hne
    refine ⟨⟨by simpa using hne, .inr trivial, h.apart⟩, by simpa using hbuilt, ?_⟩
    intro hquotes hs
    exact ⟨fun _ hlast => hs hlast rest rfl, hunmarked hquotes⟩

/-- Quoted text as an expression. -/
theorem ofTemplate (h : ReadFrom inQuotes literal s parts) :
    (ofTemplate parts).Everywhere Built := by
  unfold Expr.ofTemplate
  split
  · exact built_literal (.text _)
  · rename_i hliteral
    refine .intro ⟨h.apart, hliteral⟩ fun child hchild => ?_
    obtain ⟨part, hpart, hchild⟩ := List.mem_flatMap.mp hchild
    cases part with
    | text t => simp at hchild
    | interpolation e =>
      obtain rfl := List.mem_singleton.mp hchild
      exact h.built _ hpart

/-- Characters that are read as plain text. -/
theorem text {literal' : String} {s' : List Char} (h : ReadFrom inQuotes literal' s' parts)
    (hs : inQuotes = false → literal'.toList.getLast? = some '$' →
      ∀ rest, s' ≠ '$' :: '\x7b' :: rest) :
    ReadFrom inQuotes literal s parts :=
  ⟨h.apart, h.built, fun hquotes _ => h.unmarked hquotes (hs hquotes)⟩

end ReadFrom

/-! ## The grammar -/

/-- What is read from tokens of the lexer is built of them. -/
def Phrase.Built : Phrase → Prop
  | .expression ts e | .key ts e => (∀ t ∈ ts, t.Proper) → e.Everywhere Expr.Built
  | .items _ ts es => (∀ t ∈ ts, t.Proper) → ∀ e ∈ es, e.Everywhere Expr.Built
  | .entries ts pairs => (∀ t ∈ ts, t.Proper) →
      ∀ entry ∈ pairs, entry.1.Everywhere Expr.Built ∧ entry.2.Everywhere Expr.Built
  | .source _ e => e.Everywhere Expr.Built
  | .template inQuotes before s parts => ReadFrom inQuotes before s parts

/-- Every rule of the grammar builds its expression from tokens of the lexer and from expressions
that are built. -/
theorem Derives.built {p : Phrase} (h : Derives p) : p.Built := by
  -- Along the derivation. The condition on the tokens is passed down to the parts that they are
  -- divided into.
  induction h with
  | number h =>
    intro hproper
    exact built_literal (.number (hproper _ List.mem_cons_self) h)
  | text s => exact fun _ => built_literal (.text s)
  | quoted _ ih => exact fun _ => ih.ofTemplate
  | bool b => exact fun _ => built_literal (.bool b)
  | null => exact fun _ => built_literal .null
  | @reference root hroot path =>
    intro hproper
    obtain ⟨hname, hpath⟩ := List.forall_mem_cons.mp hproper
    refine .intro ⟨⟨hname, hroot⟩, fun name hmem => ?_⟩ (by simp [children])
    exact hpath (.name name) (List.mem_flatMap.mpr ⟨name, hmem, by simp⟩)
  | @call name ts args hname _ ih =>
    intro hproper
    obtain ⟨hproper, -, hts⟩ := by simpa only [List.forall_mem_cons] using hproper
    exact .intro ⟨hproper, hname⟩ (ih hts)
  | parens _ ih => exact fun hproper => ih fun t ht => hproper t (by simp [Token.enclosed, ht])
  | list _ ih =>
    intro hproper
    exact .intro trivial (ih fun t ht => hproper t (List.mem_cons_of_mem _ ht))
  | map _ ih =>
    intro hproper
    have hentries := ih fun t ht => hproper t (List.mem_cons_of_mem _ ht)
    refine .intro trivial fun child hchild => ?_
    obtain ⟨entry, hentry, hchild⟩ := List.mem_flatMap.mp hchild
    obtain ⟨hkey, he⟩ := hentries entry hentry
    rcases List.mem_pair.mp hchild with rfl | rfl
    · exact hkey
    · exact he
  | @access ts object _ name ih =>
    intro hproper
    obtain ⟨hts, hname⟩ := List.forall_mem_append.mp hproper
    exact .intro (hname (.name name) (by simp)) (by simpa [children] using ih hts)
  | position _ hn ih =>
    intro hproper
    obtain ⟨hts, hnumber⟩ := List.forall_mem_append.mp hproper
    have hkey := built_literal (.number (hnumber (.number _) (by simp)) hn)
    exact .intro trivial (by simpa [children] using ⟨ih hts, hkey⟩)
  | index _ _ ih ihkey =>
    intro hproper
    obtain ⟨hts, hkey⟩ := List.forall_mem_append.mp hproper
    have hkey := ihkey fun t ht => hkey t (by simp [Token.enclosed, ht])
    exact .intro trivial (by simpa [children] using ⟨ih hts, hkey⟩)
  | unary op _ ih =>
    intro hproper
    have he := ih fun t ht => hproper t (List.mem_cons_of_mem _ ht)
    exact .intro trivial (by simpa [children] using he)
  | binary op _ _ ihleft ihright =>
    intro hproper
    obtain ⟨hts, -, hts₁⟩ := by
      simpa only [List.forall_mem_append, List.forall_mem_cons] using hproper
    exact .intro trivial (by simpa [children] using ⟨ihleft hts, ihright hts₁⟩)
  | conditional _ _ _ ih ihyes ihno =>
    intro hproper
    obtain ⟨hts, -, hts₁, -, hts₂⟩ := by
      simpa only [List.forall_mem_append, List.forall_mem_cons] using hproper
    exact .intro trivial (by simpa [children] using ⟨ih hts, ihyes hts₁, ihno hts₂⟩)
  | items_nil => simp [Phrase.Built]
  | items_last _ _ ih =>
    intro hproper
    exact List.forall_mem_singleton.mpr (ih (List.forall_mem_append.mp hproper).1)
  | items_cons _ _ ih ihitems =>
    intro hproper
    obtain ⟨hts, -, hts₁⟩ := by
      simpa only [List.forall_mem_append, List.forall_mem_cons] using hproper
    exact List.forall_mem_cons.mpr ⟨ih hts, ihitems hts₁⟩
  | name_key name => exact fun _ => built_literal (.text name)
  | key _ ih => exact ih
  | entries_nil => simp [Phrase.Built]
  | entries_cons _ _ _ _ _ ihkey ih ihentries =>
    intro hproper
    obtain ⟨hts, -, hts₁, -, hts₂⟩ := by
      simpa only [List.forall_mem_append, List.forall_mem_cons] using hproper
    exact List.forall_mem_cons.mpr ⟨⟨ihkey hts, ih hts₁⟩, ihentries hts₂⟩
  | source hs _ ih =>
    obtain ⟨front, hfront, hproper⟩ := hs.proper
    rw [List.append_cancel_right hfront] at ih
    exact ih hproper
  | template_nil => exact .nil
  | marker hsign _ ih => exact ih.text fun _ => by simp
  | interpolation _ _ _ ihe ih => exact ih.interpolation ihe
  | escaped _ _ ih => exact ih.text fun hquotes => absurd hquotes (by simp)
  | @plain inQuotes literal c rest parts hc _ ih =>
    refine ih.text fun _ hlast t ht => hc ?_
    obtain rfl : c = '$' := by simpa using hlast
    rw [ht]
    exact .escaped (.inl rfl) t

/-- The reader of templates builds them. -/
theorem parseTemplate_built (inQuotes : Bool) (position : Nat) (literal : String)
    (s : List Char) :
    Ensures (parseTemplate inQuotes position literal s) (ReadFrom inQuotes literal s) :=
  (parseTemplate_derives inQuotes position literal s).mono fun _ h => h.built

/-- What the parser returns is built. -/
theorem parseText_built (text : List Char) : Ensures (parseText text) (Everywhere Built) :=
  (parseText_derives text).mono fun _ h => h.built

end Expr

end Deployment
