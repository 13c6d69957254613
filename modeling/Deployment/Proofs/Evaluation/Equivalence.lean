import Deployment.Proofs.Entries
import Deployment.Proofs.Evaluation.Agreement

/-! # Expressions with the same value

Two expressions are *equivalent* if they have the same value in every context or fail in the same
contexts. Equivalence is kept by everything that is built around an expression. The equivalences
that are no congruences are those between the ways to write the same thing: an attribute of a
reference is a longer reference, a literal list is a list of literals, and a negative number is a
negated one.
-/

namespace Deployment.Expr

/-- The two expressions have the same value in every context, or neither has one. -/
def Equivalent (e e' : Expr) : Prop :=
  ∀ context location, value? context location e = value? context location e'

/-- The two expressions give the same key in every context, or neither gives one. -/
def SameKey (key key' : Expr) : Prop :=
  ∀ context location, (value? context location key).bind Value.text? =
    (value? context location key').bind Value.text?

/-- The parts of two templates are equal texts or equivalent interpolations. -/
inductive SamePart : Part Expr → Part Expr → Prop
  | text (s : String) : SamePart (.text s) (.text s)
  | interpolation {e e' : Expr} (h : Equivalent e e') :
      SamePart (.interpolation e) (.interpolation e')

/-! ## Congruence -/

namespace Equivalent

theorem refl (e : Expr) : Equivalent e e := fun _ _ => rfl

variable {e e' e₁ e₁' e₂ e₂' : Expr}

/-- Equivalent expressions can be exchanged one after the other. -/
theorem trans (h : Equivalent e e₁) (h₁ : Equivalent e₁ e₂) : Equivalent e e₂ :=
  fun context location => (h context location).trans (h₁ context location)

/-- Equivalent expressions give the same key. The converse fails: a number and its text are one key.
-/
theorem sameKey (h : Equivalent e e') : SameKey e e' := fun context location => by
  rw [h context location]

theorem access (h : Equivalent e e') (name : String) :
    Equivalent (.attribute e name) (.attribute e' name) := fun context location => by
  rw [value?_attribute, value?_attribute, h context location]

theorem index (h : Equivalent e e') (h₁ : Equivalent e₁ e₁') :
    Equivalent (.index e e₁) (.index e' e₁') := fun context location => by
  rw [value?_index, value?_index, h context location, h₁ context location]

theorem unary (op : UnaryOp) (h : Equivalent e e') :
    Equivalent (.unary op e) (.unary op e') := fun context location => by
  cases op <;> simp only [value?_not, value?_neg, h context location]

theorem binary (op : BinaryOp) (h : Equivalent e e') (h₁ : Equivalent e₁ e₁') :
    Equivalent (.binary op e e₁) (.binary op e' e₁') := fun context location => by
  cases op <;> simp only [value?_and, value?_or, value?_equal, value?_notEqual, value?_order,
    value?_arithmetic, h context location, h₁ context location]

theorem conditional (h : Equivalent e e') (h₁ : Equivalent e₁ e₁') (h₂ : Equivalent e₂ e₂') :
    Equivalent (.conditional e e₁ e₂) (.conditional e' e₁' e₂') := fun context location => by
  simp only [value?_conditional, h context location, h₁ context location, h₂ context location]

/-- Lists with equivalent items are equivalent. -/
theorem list {items items' : List Expr} (h : List.Forall₂ Equivalent items items') :
    Equivalent (.list items) (.list items') := fun context location => by
  rw [value?_list, value?_list, values?_congr (h.imp fun _ _ h => h context location)]

/-- Calls with equivalent arguments are equivalent. -/
theorem call (name : String) {args args' : List Expr} (h : List.Forall₂ Equivalent args args') :
    Equivalent (.call name args) (.call name args') := fun context location => by
  rw [value?_call, value?_call, values?_congr (h.imp fun _ _ h => h context location)]

/-- Map constructors with equivalent values are equivalent, if only their keys are the same text. -/
theorem map {entries entries' : List (Expr × Expr)}
    (h : List.Forall₂ (fun p p' => SameKey p.1 p'.1 ∧ Equivalent p.2 p'.2) entries entries') :
    Equivalent (.map entries) (.map entries') := fun context location => by
  rw [value?_map, value?_map,
    entries?_congr (h.imp fun _ _ h => ⟨h.1 context location, h.2 context location⟩)]

/-- Templates with the same parts are equivalent. -/
theorem template {parts parts' : Template} (h : List.Forall₂ SamePart parts parts') :
    Equivalent (.template parts) (.template parts') := fun context location => by
  refine value?_template_congr (h.imp fun _ _ h => ?_)
  cases h with
  | text s => exact .text s
  | interpolation h => exact .interpolation (h context location)

end Equivalent

/-! ## Templates without interpolations -/

/-- The text of a template without interpolations is spliced to itself. -/
theorem spliced?_of_literal? (context : Context) (location : String) {parts : Template}
    {s : String} (h : parts.literal? = some s) : spliced? context location parts = some s := by
  induction parts generalizing s with
  | nil => simpa [Template.literal?] using h
  | cons part rest ih =>
    cases part with
    | text t =>
      obtain ⟨u, hu, rfl⟩ := Option.map_eq_some_iff.mp h
      rw [spliced?_text, ih hu, Option.map_some]
    | interpolation e => cases h

/-- Text without interpolations is a literal. -/
theorem equivalent_ofTemplate (parts : Template) :
    Equivalent (.template parts) (ofTemplate parts) := by
  intro context location
  unfold ofTemplate
  split
  · rename_i s h
    have hsingle : parts.single? = none := by
      unfold Template.single?
      split
      · cases h
      · rfl
    rw [value?_template _ _ hsingle, spliced?_of_literal? _ _ h, value?_literal, Option.map_some]
  · rfl

/-! ## References -/

/-- A path with one more name leads to an attribute of what the path leads to. -/
theorem follow_append (location : String) (v : Value) (path : String) (names : List String)
    (name : String) : (v.follow location path (names ++ [name])).toOption =
      (v.follow location path names).toOption.bind (·.attribute? name) := by
  induction names generalizing v path with
  | nil =>
    have hname := v.getAttribute_toOption name (path ++ "." ++ name) location
    rw [List.nil_append, Value.follow, Value.follow]
    cases hv : v.getAttribute name (path ++ "." ++ name) location <;> rw [hv] at hname <;>
      exact hname
  | cons first rest ih =>
    rw [List.cons_append, Value.follow, Value.follow]
    cases v.getAttribute first (path ++ "." ++ first) location with
    | error e => rfl
    | ok w => exact ih w _

/-- A reference with one more name stands for an attribute of what the reference stands for. Its
path must not be empty: the first name is looked up in the scope. -/
theorem resolve_append (scope : Entries Value) {root : String} {path : List String}
    (h : path ≠ []) (name location : String) :
    (Context.resolve scope ⟨root, path ++ [name]⟩ location).toOption =
      (Context.resolve scope ⟨root, path⟩ location).toOption.bind (·.attribute? name) := by
  cases path with
  | nil => exact absurd rfl h
  | cons first rest =>
    simp only [Context.resolve, List.cons_append]
    cases scope.get? first with
    | none => rfl
    | some v => exact follow_append location v _ rest name

/-- An attribute of a reference is a longer reference, unless the reference is one of the names
under which the variables and the local values are found. -/
theorem equivalent_reference {r : Reference} (name : String)
    (h : r.path = [] → r.root ≠ "var" ∧ r.root ≠ "local") :
    Equivalent (.attribute (.reference r) name) (.reference ⟨r.root, r.path ++ [name]⟩) := by
  intro context location
  obtain ⟨root, path⟩ := r
  rw [value?_attribute, value?_reference, value?_reference]
  unfold Context.lookup
  dsimp only at h ⊢
  split
  · exact (resolve_append context.vars (fun hpath => (h hpath).1 rfl) name location).symm
  · exact (resolve_append context.locals (fun hpath => (h hpath).2 rfl) name location).symm
  -- Nothing is found under the other roots, with or without the attribute.
  all_goals try rfl
  cases path <;> rfl

/-! ## Literals -/

/-- A literal list is equivalent to the list of literals. -/
theorem equivalent_list (items : List Value) :
    Equivalent (.literal (.list items)) (.list (items.map .literal)) := by
  intro context location
  have hvalues : values? context location (items.map .literal) = some items := by
    induction items with
    | nil => simp
    | cons v rest ih => simp [ih]
  rw [value?_list, hvalues, value?_literal]
  rfl

/-- A literal map is equivalent to a map constructor, unless a key stands in it twice: the
constructor would refuse it. -/
theorem equivalent_map {entries : List (String × Value)} (nodup : (entries.map Prod.fst).Nodup) :
    Equivalent (.literal (.map entries))
      (.map (entries.map fun entry => (.literal (.text entry.1), .literal entry.2))) := by
  intro context location
  have hentries (seen : Entries Value) (hseen : ((seen ++ entries).map Prod.fst).Nodup) :
      entries? context location seen
        (entries.map fun entry => (.literal (.text entry.1), .literal entry.2)) =
          some (seen ++ entries) := by
    clear nodup
    induction entries generalizing seen with
    | nil => simp
    | cons entry rest ih =>
      obtain ⟨key, v⟩ := entry
      obtain ⟨hnew, hsplit⟩ := Entries.append_cons_eq_put hseen
      rw [hsplit] at hseen ⊢
      simpa [Value.text?, Entries.has_eq_false_iff.mpr hnew] using ih _ hseen
  rw [value?_map, hentries [] (by simpa using nodup), value?_literal]
  rfl

/-- A negative number is the negation of what it is without its sign. -/
theorem equivalent_neg {n m : Number} (h : m.negate = .ok n) :
    Equivalent (.literal (.number n)) (.unary .neg (.literal (.number m))) := by
  intro context location
  simp [Value.number?, h, Except.toOption]

end Deployment.Expr
