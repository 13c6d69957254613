import Deployment.Proofs.Evaluation.Agreement
import Deployment.Proofs.Syntax.Replacement
import Mathlib

/-! # What an evaluation depends on

The references of a draft are those of the templates in its texts and keys. An evaluation looks a
name up only where a reference starts with it. So two contexts that agree on the names which the
references of a draft start with cannot be told apart by evaluating the draft: the value is the
same, and so is the failure, if there is one (`Draft.evaluate_eq_of_references`).
-/

namespace Deployment

/-! ## References of drafts -/

/-- The references of template text. Text that is no template has none. -/
def Template.textReferences (text : String) : List Reference :=
  match Template.parse text false with
  | .ok parts => parts.references
  | .error _ => []

namespace Draft

mutual
/-- The references of a draft, in its texts and in the keys of its maps. -/
def references : Draft → List Reference
  | .null | .bool _ | .number _ => []
  | .text template => Template.textReferences template
  | .list items => referencesOfItems items
  | .map entries => referencesOfEntries entries

/-- The references of drafts in order. -/
def referencesOfItems : List Draft → List Reference
  | [] => []
  | d :: rest => references d ++ referencesOfItems rest

/-- The references of keys and values in order. -/
def referencesOfEntries : List (String × Draft) → List Reference
  | [] => []
  | (key, d) :: rest =>
    Template.textReferences key ++ references d ++ referencesOfEntries rest
end

/-- A reference in a list is one in an item. -/
theorem mem_referencesOfItems {items : List Draft} {r : Reference} :
    r ∈ referencesOfItems items ↔ ∃ d ∈ items, r ∈ d.references := by
  induction items with
  | nil => simp [referencesOfItems]
  | cons d rest ih => simp [referencesOfItems, ih]

/-- A reference in a map is one in a key or in a value. -/
theorem mem_referencesOfEntries {entries : List (String × Draft)} {r : Reference} :
    r ∈ referencesOfEntries entries ↔
      ∃ key d, (key, d) ∈ entries ∧ (r ∈ Template.textReferences key ∨ r ∈ d.references) := by
  induction entries with
  | nil => simp [referencesOfEntries]
  | cons entry rest ih =>
    obtain ⟨key, d⟩ := entry
    simp only [referencesOfEntries, List.mem_append, ih, List.mem_cons, Prod.mk.injEq]
    constructor
    · rintro (hhere | ⟨key', d', hmem, hrest⟩)
      · exact ⟨key, d, .inl ⟨rfl, rfl⟩, hhere⟩
      · exact ⟨key', d', .inr hmem, hrest⟩
    · rintro ⟨key', d', ⟨rfl, rfl⟩ | hmem, hr⟩
      · exact .inl hr
      · exact .inr ⟨key', d', hmem, hr⟩

end Draft

/-! ## Contexts that agree -/

/-- Two contexts give the name that a reference starts with the same value, or both give it none. -/
def Context.SameFor (context context' : Context) (r : Reference) : Prop :=
  ∀ name, (r.startsWith "var" name → context.vars.get? name = context'.vars.get? name) ∧
    (r.startsWith "local" name → context.locals.get? name = context'.locals.get? name)

variable {context context' : Context} {location : String}

/-- Resolving a reference looks up one name in the scope, the first of its path. -/
theorem Context.resolve_congr {scope scope' : Entries Value} {r : Reference}
    (h : ∀ name, r.path.head? = some name → scope.get? name = scope'.get? name)
    (location : String) : resolve scope r location = resolve scope' r location := by
  obtain ⟨root, path⟩ := r
  cases path with
  | nil => rfl
  | cons name rest =>
    have hname : scope.get? name = scope'.get? name := h name rfl
    simp only [resolve, hname]

/-- Contexts that agree on a reference give it the same value or the same failure. -/
theorem Context.lookup_congr {r : Reference} (h : context.SameFor context' r)
    (location : String) : context.lookup r location = context'.lookup r location := by
  unfold lookup
  split
  case h_1 hroot =>
    apply resolve_congr
    intro name hhead
    exact (h name).1 (by simp [Reference.startsWith, hroot, hhead])
  case h_2 hroot =>
    apply resolve_congr
    intro name hhead
    exact (h name).2 (by simp [Reference.startsWith, hroot, hhead])
  -- Under the other roots nothing is looked up.
  all_goals rfl

/-! ## Expressions -/

namespace Expr

attribute [local simp] evaluate evaluateItems evaluateEntries evaluateParts

/-- Items that are evaluated alike make lists that are. -/
theorem evaluateItems_congr {items : List Expr}
    (h : ∀ e ∈ items, evaluate context location e = evaluate context' location e) :
    evaluateItems context location items = evaluateItems context' location items := by
  induction items with
  | nil => simp
  | cons e rest ih =>
    have hrest := ih fun e he => h e (List.mem_cons_of_mem _ he)
    simp only [evaluateItems, h e List.mem_cons_self, hrest]

/-- Entries that are evaluated alike make maps that are, with the same keys refused. -/
theorem evaluateEntries_congr {entries : List (Expr × Expr)}
    (h : ∀ key e, (key, e) ∈ entries →
      evaluate context location key = evaluate context' location key ∧
      evaluate context location e = evaluate context' location e) (seen : Entries Value) :
    evaluateEntries context location seen entries =
      evaluateEntries context' location seen entries := by
  induction entries generalizing seen with
  | nil => simp
  | cons entry rest ih =>
    obtain ⟨key, e⟩ := entry
    obtain ⟨hkey, he⟩ := h key e List.mem_cons_self
    have hrest (seen : Entries Value) := ih (fun key e hmem => h key e (by simp [hmem])) seen
    simp only [evaluateEntries, hkey, he, hrest]

/-- Interpolations that are evaluated alike make texts that are. -/
theorem evaluateParts_congr {parts : Template}
    (h : ∀ e, .interpolation e ∈ parts →
      evaluate context location e = evaluate context' location e) :
    evaluateParts context location parts = evaluateParts context' location parts := by
  induction parts with
  | nil => simp
  | cons part rest ih =>
    have hrest := ih fun e he => h e (List.mem_cons_of_mem _ he)
    cases part with
    | text s => simp only [evaluateParts, hrest]
    | interpolation e => simp only [evaluateParts, h e List.mem_cons_self, hrest]

/-- An expression is evaluated alike in contexts that agree on its references. -/
theorem evaluate_congr {e : Expr} (h : ∀ r ∈ e.references, context.SameFor context' r) :
    evaluate context location e = evaluate context' location e := by
  induction e with
  | literal v => simp
  | template parts ih =>
    have hparts (e : Expr) (he : .interpolation e ∈ parts) :
        evaluate context location e = evaluate context' location e := by
      refine ih e he fun r hr => h r ?_
      rw [references]
      exact mem_referencesOfParts.mpr ⟨e, he, hr⟩
    -- A lone interpolation keeps its value, other templates are spliced together.
    cases hs : Template.single? parts with
    | some e =>
      obtain rfl : parts = [.interpolation e] := Template.eq_of_single? hs
      simpa using hparts e (by simp)
    | none =>
      rw [evaluate_template _ _ hs, evaluate_template _ _ hs, evaluateParts_congr hparts]
  -- The only place where an evaluation looks at the context.
  | reference r =>
    rw [evaluate, evaluate]
    exact Context.lookup_congr (h r (by simp [references])) location
  | list items ih =>
    have hitems : evaluateItems context location items = evaluateItems context' location items := by
      apply evaluateItems_congr
      intro e he
      refine ih e he fun r hr => h r ?_
      rw [references]
      exact mem_referencesOfItems.mpr ⟨e, he, hr⟩
    simp only [evaluate, hitems]
  | map entries ih =>
    have hentries : evaluateEntries context location [] entries =
        evaluateEntries context' location [] entries := by
      apply evaluateEntries_congr
      intro key e hmem
      have href {r : Reference} (hr : r ∈ key.references ∨ r ∈ e.references) :
          context.SameFor context' r := by
        apply h
        rw [references]
        exact mem_referencesOfEntries.mpr ⟨(key, e), hmem, hr⟩
      obtain ⟨ihk, ihe⟩ := ih key e hmem
      exact ⟨ihk fun r hr => href (.inl hr), ihe fun r hr => href (.inr hr)⟩
    simp only [evaluate, hentries]
  | access object name ih =>
    simp only [evaluate, ih fun r hr => h r (by simpa [references] using hr)]
  | index object key ih ihk =>
    simp only [evaluate, ih fun r hr => h r (by simp [references, hr]),
      ihk fun r hr => h r (by simp [references, hr])]
  | unary op operand ih =>
    have hoperand := ih fun r hr => h r (by simpa [references] using hr)
    cases op <;> simp only [evaluate, hoperand]
  | binary op left right ihl ihr =>
    have hleft := ihl fun r hr => h r (by simp [references, hr])
    have hright := ihr fun r hr => h r (by simp [references, hr])
    cases op <;> simp only [evaluate, hleft, hright]
  | conditional condition yes no ih ihy ihn =>
    have hcondition := ih fun r hr => h r (by simp [references, hr])
    have hyes := ihy fun r hr => h r (by simp [references, hr])
    have hno := ihn fun r hr => h r (by simp [references, hr])
    simp only [evaluate, hcondition, hyes, hno]
  | call name args ih =>
    have hargs : evaluateItems context location args = evaluateItems context' location args := by
      apply evaluateItems_congr
      intro e he
      refine ih e he fun r hr => h r ?_
      rw [references]
      exact mem_referencesOfItems.mpr ⟨e, he, hr⟩
    simp only [evaluate, hargs]

end Expr

/-! ## Drafts -/

namespace Template

/-- A text is evaluated alike in contexts that agree on its references. -/
theorem evaluateText_congr {text : String}
    (h : ∀ r ∈ textReferences text, context.SameFor context' r) (location : String) :
    evaluateText context location text = evaluateText context' location text := by
  unfold textReferences at h
  unfold evaluateText
  split
  · rename_i parts hparse
    rw [hparse] at h
    apply Expr.evaluate_congr
    intro r hr
    rw [Expr.references] at hr
    exact h r hr
  · rfl

/-- A key depends only on what the references in it stand for. -/
theorem evaluateKey_congr {text : String}
    (h : ∀ r ∈ textReferences text, context.SameFor context' r) (location : String) :
    evaluateKey context location text = evaluateKey context' location text := by
  rw [evaluateKey, evaluateKey, evaluateText_congr h]

end Template

namespace Draft

theorem evaluateItems_congr {items : List Draft}
    (h : ∀ d ∈ items, ∀ location, evaluate context location d = evaluate context' location d)
    (i : Nat) :
    evaluateItems context location i items = evaluateItems context' location i items := by
  induction items generalizing i with
  | nil => simp [evaluateItems]
  | cons d rest ih =>
    have hrest := ih (fun d hd => h d (List.mem_cons_of_mem _ hd)) (i + 1)
    simp only [evaluateItems, h d List.mem_cons_self, hrest]

theorem evaluateEntries_congr {entries : List (String × Draft)}
    (h : ∀ key d, (key, d) ∈ entries → ∀ location,
      Template.evaluateKey context location key = Template.evaluateKey context' location key ∧
      evaluate context location d = evaluate context' location d) (seen : Entries Value) :
    evaluateEntries context location seen entries =
      evaluateEntries context' location seen entries := by
  induction entries generalizing seen with
  | nil => simp [evaluateEntries]
  | cons entry rest ih =>
    obtain ⟨key, d⟩ := entry
    have hd (location : String) := (h key d List.mem_cons_self location).2
    have hrest (seen : Entries Value) := ih (fun key d hmem => h key d (by simp [hmem])) seen
    simp only [evaluateEntries, (h key d List.mem_cons_self location).1, hd, hrest]

/-- A draft is evaluated alike in contexts that agree on its references, wherever it stands. -/
theorem evaluate_congr {d : Draft} (h : ∀ r ∈ d.references, context.SameFor context' r)
    (location : String) : d.evaluate context location = d.evaluate context' location := by
  -- By induction on the draft, for all locations: entries are evaluated at those of their keys.
  induction d generalizing location with
  | null => rfl
  | bool b => rfl
  | number n => rfl
  | text template =>
    rw [references] at h
    rw [evaluate, evaluate, Template.evaluateText_congr h]
  | list items ih =>
    have hitems : evaluateItems context location 0 items =
        evaluateItems context' location 0 items := by
      apply evaluateItems_congr
      intro d hd
      refine ih d hd fun r hr => h r ?_
      rw [references]
      exact mem_referencesOfItems.mpr ⟨d, hd, hr⟩
    rw [evaluate, evaluate, hitems]
  | map entries ih =>
    have hentries : evaluateEntries context location [] entries =
        evaluateEntries context' location [] entries := by
      apply evaluateEntries_congr
      intro key d hmem location
      have href {r : Reference} (hr : r ∈ Template.textReferences key ∨ r ∈ d.references) :
          context.SameFor context' r := by
        apply h
        rw [references]
        exact mem_referencesOfEntries.mpr ⟨key, d, hmem, hr⟩
      constructor
      · exact Template.evaluateKey_congr (fun r hr => href (.inl hr)) location
      · exact ih key d hmem (fun r hr => href (.inr hr)) location
    rw [evaluate, evaluate, hentries]

/-- Contexts that agree on the references of a draft give it the same value or the same failure. -/
theorem evaluate_eq_of_references {d : Draft}
    (h : ∀ r ∈ d.references, context.SameFor context' r) (location : String) :
    d.evaluate context location = d.evaluate context' location :=
  evaluate_congr h location

/-- A map with a reference in the key and one in the value. -/
def labelled : Draft :=
  .map [("${var.env}", .text "${local.size == null}")]

/-- The contexts differ in the order of names and in a local value that nobody asks for. -/
theorem labelled_evaluate_eq :
    let production : Context :=
      ⟨[("env", .text "prod"), ("debug", .bool false)], [("size", .number (.integer 2))]⟩
    let debugging : Context :=
      ⟨[("debug", .bool true), ("env", .text "prod")],
        [("spare", .null), ("size", .number (.integer 2))]⟩
    (∀ r ∈ labelled.references, production.SameFor debugging r) ∧
      labelled.evaluate production "tags" = labelled.evaluate debugging "tags" := by
  intro production debugging
  have hreferences : labelled.references = [⟨"var", ["env"]⟩, ⟨"local", ["size"]⟩] := by cbv
  have hsame (r : Reference) (hr : r ∈ labelled.references) : production.SameFor debugging r := by
    intro name
    rw [hreferences, List.mem_pair] at hr
    rcases hr with rfl | rfl
    · constructor
      · intro hstarts
        obtain rfl : "env" = name := by simpa [Reference.startsWith] using hstarts
        rfl
      · simp [Reference.startsWith]
    · constructor
      · simp [Reference.startsWith]
      · intro hstarts
        obtain rfl : "size" = name := by simpa [Reference.startsWith] using hstarts
        rfl
  exact ⟨hsame, evaluate_eq_of_references hsame "tags"⟩

end Draft

end Deployment
