import Deployment.Expr.References
import Deployment.Proofs.Syntax.Lexical

/-! # Replacing references

`Expr.replace` changes references and nothing else. An expression without the references in question
stays as it is, and the nodes of the changed expression are the nodes of the old one, apart from
what the references were replaced by. So a property of nodes that only looks at names and at the
texts of templates is kept.
-/

namespace Deployment

namespace Expr

section Replacement

variable {f : Reference → Expr}

/-! ## Lists of subexpressions -/

attribute [local simp] references referencesOfItems referencesOfEntries referencesOfParts
  replace replaceInItems replaceInEntries replaceInParts

/-- The references of several expressions are those of each. -/
theorem mem_referencesOfItems {items : List Expr} {r : Reference} :
    r ∈ referencesOfItems items ↔ ∃ e ∈ items, r ∈ e.references := by
  induction items with
  | nil => simp
  | cons e rest ih => simp [ih]

/-- The references of entries are those of the keys and of the expressions. -/
theorem mem_referencesOfEntries {entries : List (Expr × Expr)} {r : Reference} :
    r ∈ referencesOfEntries entries ↔
      ∃ entry ∈ entries, r ∈ entry.1.references ∨ r ∈ entry.2.references := by
  induction entries with
  | nil => simp
  | cons entry rest ih => simp [ih, or_assoc]

/-- The references of a template are those of its interpolations. -/
theorem mem_referencesOfParts {parts : Template} {r : Reference} :
    r ∈ referencesOfParts parts ↔ ∃ e, .interpolation e ∈ parts ∧ r ∈ e.references := by
  induction parts with
  | nil => simp
  | cons part rest ih =>
    cases part with
    | text s => simp [ih]
    | interpolation e => simp [ih, or_and_right, exists_or]

/-- In a list the references of each item are replaced. -/
theorem replaceInItems_eq_map (items : List Expr) :
    replaceInItems f items = items.map (replace f) := by
  induction items with
  | nil => simp
  | cons e rest ih => simp [ih]

/-- In a map they are replaced in the keys, too. -/
theorem replaceInEntries_eq_map (entries : List (Expr × Expr)) :
    replaceInEntries f entries =
      entries.map fun entry => (replace f entry.1, replace f entry.2) := by
  induction entries with
  | nil => simp
  | cons entry rest ih => simp [ih]

/-- A part of a template with its references replaced. -/
def replacePart (f : Reference → Expr) : Part Expr → Part Expr
  | .text s => .text s
  | .interpolation e => .interpolation (replace f e)

/-- In a template they are replaced part by part. -/
theorem replaceInParts_eq_map (parts : Template) :
    replaceInParts f parts = parts.map (replacePart f) := by
  induction parts with
  | nil => simp
  | cons part rest ih => cases part <;> simp [ih, replacePart]

/-! ## Expressions without the references -/

/-- A map that changes no member changes no list of them. -/
theorem map_eq_self {α : Type} {g : α → α} {l : List α} (h : ∀ a ∈ l, g a = a) : l.map g = l := by
  rw [List.map_congr_left h, List.map_id']

/-- What is replaced by itself leaves the expression as it is. -/
theorem replace_eq_self {e : Expr} (h : ∀ r ∈ e.references, f r = .reference r) :
    replace f e = e := by
  -- In each case the references of a subexpression are references of the whole.
  induction e with
  | literal v => simp
  | template parts ih =>
    rw [replace, replaceInParts_eq_map, map_eq_self]
    rintro (s | e) hpart
    · rfl
    · rw [replacePart, ih e hpart fun r hr => h r ?_]
      rw [references]
      exact mem_referencesOfParts.mpr ⟨e, hpart, hr⟩
  | reference r => simpa using h
  | list items ih =>
    rw [replace, replaceInItems_eq_map, map_eq_self]
    intro e he
    refine ih e he fun r hr => h r ?_
    rw [references]
    exact mem_referencesOfItems.mpr ⟨e, he, hr⟩
  | map entries ih =>
    rw [replace, replaceInEntries_eq_map, map_eq_self]
    intro entry hentry
    have hmem {r : Reference} (hr : r ∈ entry.1.references ∨ r ∈ entry.2.references) :
        r ∈ (map entries).references := by
      rw [references]
      exact mem_referencesOfEntries.mpr ⟨entry, hentry, hr⟩
    obtain ⟨ihk, ihe⟩ := ih entry.1 entry.2 hentry
    rw [ihk fun r hr => h r (hmem (.inl hr)), ihe fun r hr => h r (hmem (.inr hr))]
  | access object name ih =>
    rw [replace, ih fun r hr => h r (by simpa using hr)]
  | index object key ih ihk =>
    rw [replace, ih fun r hr => h r (by simp [hr]), ihk fun r hr => h r (by simp [hr])]
  | unary op operand ih =>
    rw [replace, ih fun r hr => h r (by simpa using hr)]
  | binary op left right ihl ihr =>
    rw [replace, ihl fun r hr => h r (by simp [hr]), ihr fun r hr => h r (by simp [hr])]
  | conditional condition yes no ih ihy ihn =>
    rw [replace, ih fun r hr => h r (by simp [hr]), ihy fun r hr => h r (by simp [hr]),
      ihn fun r hr => h r (by simp [hr])]
  | call name args ih =>
    rw [replace, replaceInItems_eq_map, map_eq_self]
    intro e he
    refine ih e he fun r hr => h r ?_
    rw [references]
    exact mem_referencesOfItems.mpr ⟨e, he, hr⟩

/-! ## Nodes -/

/-- The subexpressions are replaced one by one. -/
theorem children_replace {e : Expr} (h : ∀ r, e ≠ .reference r) :
    (replace f e).children = e.children.map (replace f) := by
  cases e using induct with
  | literal v => simp [children]
  | template parts =>
    rw [replace, replaceInParts_eq_map, children, children, List.flatMap_map, List.map_flatMap]
    congr 1
    funext part
    cases part <;> rfl
  | reference r => exact absurd rfl (h r)
  | list items => rw [replace, replaceInItems_eq_map, children, children]
  | map entries =>
    rw [replace, replaceInEntries_eq_map, children, children, List.flatMap_map, List.map_flatMap]
    rfl
  | call name args => rw [replace, replaceInItems_eq_map, children, children]
  | _ => simp [children]

/-- Replacing goes through a template part by part. -/
theorem replace_cons (part : Part Expr) (rest : Template) :
    Template.replace f (part :: rest) = replacePart f part :: rest.replace f := by
  rw [Template.replace, Template.replace, replaceInParts_eq_map, replaceInParts_eq_map,
    List.map_cons]

/-- The interpolations of the new template are those of the old one, replaced. -/
theorem mem_replace {parts : Template} {e : Expr} :
    .interpolation e ∈ parts.replace f ↔
      ∃ e₁, .interpolation e₁ ∈ parts ∧ replace f e₁ = e := by
  rw [Template.replace, replaceInParts_eq_map, List.mem_map]
  constructor
  · rintro ⟨s | e₁, hpart, heq⟩
    · cases heq
    · exact ⟨e₁, hpart, Part.interpolation.inj heq⟩
  · rintro ⟨e₁, hpart, rfl⟩
    exact ⟨_, hpart, rfl⟩

/-- A template whose references are replaced by themselves stays as it is. -/
theorem replaceParts_eq_self {parts : Template}
    (h : ∀ r ∈ parts.references, f r = .reference r) : parts.replace f = parts := by
  rw [Template.references] at h
  have heq : replace f (.template parts) = .template parts := by
    refine replace_eq_self fun r hr => h r ?_
    rwa [references] at hr
  rw [replace] at heq
  exact Expr.template.inj heq

/-- The new template starts with an interpolation exactly if the old one does. -/
theorem interpolates_replace {parts : Template} :
    (parts.replace f).Interpolates ↔ parts.Interpolates := by
  cases parts with
  | nil => rfl
  | cons part rest =>
    rw [replace_cons]
    cases part <;> rfl

/-- Replacing references does not touch texts, and so none comes to be continued by another. -/
theorem apart_replace {parts : Template} (h : parts.Apart) : (parts.replace f).Apart := by
  induction parts with
  | nil => exact h
  | cons part rest ih =>
    rw [replace_cons]
    cases part with
    | interpolation e => exact ih h
    | text s =>
      obtain ⟨hne, hnext, hrest⟩ := h
      refine ⟨hne, ?_, ih hrest⟩
      rcases hnext with rfl | hnext
      · exact .inl rfl
      · exact .inr (interpolates_replace.mpr hnext)

/-- No text comes to stand in front of an interpolation that did not before. -/
theorem unmarked_replace {parts : Template} (h : parts.Unmarked) :
    (parts.replace f).Unmarked := by
  induction parts with
  | nil => exact h
  | cons part rest ih =>
    rw [replace_cons]
    cases part with
    | interpolation e => exact ih h
    | text s => exact ⟨fun hnext => h.1 (interpolates_replace.mp hnext), ih h.2⟩

/-- The names of a node other than a reference are kept. -/
theorem lexical_replace {e : Expr} (h : e.Lexical) (he : ∀ r, e ≠ .reference r) :
    (replace f e).Lexical := by
  cases e using induct with
  | template parts =>
    rw [replace]
    exact apart_replace h
  | reference r => exact absurd rfl (he r)
  | access object name =>
    rw [replace]
    exact h
  | call name args =>
    rw [replace]
    exact h
  | _ => simp [Lexical]

/-- Replacing references by lexical expressions leaves an expression lexical. -/
theorem everywhere_lexical_replace {e : Expr} (h : e.Everywhere Lexical)
    (hf : ∀ r, Lexical (.reference r) → (f r).Everywhere Lexical) :
    (replace f e).Everywhere Lexical := by
  induction h with
  | @intro e here below ih =>
    by_cases hreference : ∃ r, e = .reference r
    · obtain ⟨r, rfl⟩ := hreference
      rw [replace]
      exact hf r here
    · have he (r : Reference) : e ≠ .reference r := fun heq => hreference ⟨r, heq⟩
      refine .intro (lexical_replace here he) ?_
      rw [children_replace he]
      intro child hchild
      obtain ⟨child, hmem, rfl⟩ := List.mem_map.mp hchild
      exact ih child hmem

end Replacement

end Expr

end Deployment
