import Deployment.Proofs.Evaluation.Inheritance

/-! # Evaluation keeps the keys of maps apart

A value is `Distinct` if no map in it, at any depth, holds a key twice. An expression that was read
holds no literal maps, a map constructor refuses a repeated key, and everything else hands on parts
of values that are already there. So evaluation hands the property on (`Value.Distinct.inherited`):
the value of a draft is distinct if the values in its context are (`Draft.evaluate_distinct`), and a
resolved context keeps this for the local values that are found one after the other
(`Document.resolveContext_distinct`).
-/

namespace Deployment

/-- All maps in the value, at any depth, have different keys. -/
inductive Value.Distinct : Value → Prop
  | null : Distinct .null
  | bool (b : Bool) : Distinct (.bool b)
  | number (n : Number) : Distinct (.number n)
  | text (s : String) : Distinct (.text s)
  | list {items : List Value} (h : ∀ v ∈ items, Distinct v) : Distinct (.list items)
  | map {entries : List (String × Value)} (nodup : (Entries.keys entries).Nodup)
      (h : ∀ key v, (key, v) ∈ entries → Distinct v) : Distinct (.map entries)

/-- The values in scope are distinct. -/
structure Context.Distinct (context : Context) : Prop where
  vars : ∀ name v, (name, v) ∈ context.vars → v.Distinct
  locals : ∀ name v, (name, v) ∈ context.locals → v.Distinct

namespace Value

namespace Distinct

variable {v : Value} {items : List Value} {entries : Entries Value}

/-- An item of a distinct list is distinct. -/
theorem mem (h : (Value.list items).Distinct) (hv : v ∈ items) : v.Distinct := by
  cases h with
  | list h => exact h v hv

/-- The keys of a distinct map are different. -/
theorem nodup (h : (Value.map entries).Distinct) : entries.keys.Nodup := by
  cases h with
  | map nodup _ => exact nodup

/-- A value in a distinct map is distinct. -/
theorem entry {key : String} (h : (Value.map entries).Distinct) (hv : (key, v) ∈ entries) :
    v.Distinct := by
  cases h with
  | map _ h => exact h key v hv

theorem empty : (Value.map []).Distinct :=
  .map List.nodup_nil (by simp)

/-- Writing an entry keeps a map distinct, under an old key as under a new one. -/
theorem put (h : (Value.map entries).Distinct) (key : String) (hv : v.Distinct) :
    (Value.map (entries.put key v)).Distinct := by
  refine .map (Entries.nodup_keys_put h.nodup key v) fun key' v' hmem => ?_
  rcases Entries.mem_put hmem with hold | hnew
  · exact h.entry hold
  · obtain ⟨-, rfl⟩ := Prod.mk.inj hnew
    exact hv

/-- A distinct item in front keeps a list distinct. -/
theorem cons (hv : v.Distinct) (h : (Value.list items).Distinct) :
    (Value.list (v :: items)).Distinct := by
  refine .list fun w hw => ?_
  rcases List.mem_cons.mp hw with rfl | hrest
  · exact hv
  · exact h.mem hrest

end Distinct

/-! ## Evaluation -/

/-- Different keys are handed on: a number has no keys, and a map gains one at a time. -/
theorem Distinct.inherited : Inherited Distinct where
  null := .null
  bool := .bool
  text := .text
  list := ⟨fun h _ hv => h.mem hv, .list⟩
  entry h hv := h.entry hv
  empty := .empty
  put key _ h hv := h.put key hv
  integer n := .number (.integer n)
  parsed _ := .number _
  arithmetic _ _ _ _ _ n _ := .number n
  negate _ n _ := .number n

end Value

/-- Being distinct is a property of all values in scope. -/
theorem Context.Distinct.all {context : Context} (h : context.Distinct) :
    context.All Value.Distinct :=
  ⟨h.vars, h.locals⟩

/-- The value of a text as a template is distinct. -/
theorem Template.evaluateText_distinct {context : Context} (hcontext : context.Distinct)
    (location text : String) : Ensures (evaluateText context location text) Value.Distinct :=
  evaluateText_inherits Value.Distinct.inherited hcontext.all location text

namespace Draft

variable {context : Context}

/-- The value of a draft is distinct, whatever is written in the draft. -/
theorem evaluate_distinct (hcontext : context.Distinct) (d : Draft) (location : String) :
    Ensures (evaluate context location d) Value.Distinct :=
  evaluate_inherits Value.Distinct.inherited hcontext.all
    (numbers_of_forall (fun n => .number n) d) location

/-- Attributes are evaluated to distinct values, one by one. -/
theorem evaluateAttributes_distinct (hcontext : context.Distinct) (attributes : Entries Draft)
    (owner : String) :
    Ensures (evaluateAttributes context owner attributes) fun vs =>
      ∀ name v, (name, v) ∈ vs → v.Distinct := by
  induction attributes with
  | nil => exact .ok (by simp)
  | cons entry rest ih =>
    obtain ⟨name, d⟩ := entry
    rw [evaluateAttributes]
    refine .bind (evaluate_distinct hcontext d _) fun v hv => ?_
    refine .bind ih fun vs hvs => .ok ?_
    intro name' v' hmem
    rcases List.mem_cons.mp hmem with heq | hrest
    · cases heq
      exact hv
    · exact hvs name' v' hrest

end Draft

/-! ## Contexts -/

namespace Context

/-- A variable has an override or a default, and both are distinct. -/
theorem variablesOf_distinct {vars : List Variable} {overrides : Entries Value}
    (hoverrides : ∀ name v, (name, v) ∈ overrides → v.Distinct)
    (hvars : ∀ v ∈ vars, ∀ value, v.default = some value → value.Distinct) :
    ∀ name v, (name, v) ∈ variablesOf vars overrides → v.Distinct := by
  intro name value hmem
  obtain ⟨v, hv, rfl, hvalue⟩ := mem_variablesOf.mp hmem
  rcases hvalue with hoverride | ⟨-, hdefault⟩
  · exact hoverrides _ value (Entries.mem_of_get? hoverride)
  · exact hvars v hv value hdefault

/-- Local values are found by evaluating drafts in contexts that hold the ones found before. -/
theorem resolveLocals_distinct {definitions : Entries Draft} {vars : Entries Value}
    (hvars : ∀ name v, (name, v) ∈ vars → v.Distinct) {rounds : Nat}
    {pending stack : List String} {locals : Entries Value}
    (hlocals : ∀ name v, (name, v) ∈ locals → v.Distinct) :
    Ensures (resolveLocals definitions vars rounds pending stack locals) fun result =>
      ∀ name v, (name, v) ∈ result → v.Distinct := by
  -- By induction on the rounds. What holds of the local values found so far is what the next
  -- evaluation needs.
  induction rounds, pending, stack, locals using resolveLocals_induction with
  | done rounds pending locals hp =>
    rw [resolveLocals_nil, hp]
    exact .ok hlocals
  | next rounds pending locals name rest hp ih =>
    rw [resolveLocals_nil, hp]
    exact ih hlocals
  | spent pending current below locals => exact .error _
  | round rounds pending current below locals ih =>
    rw [resolveLocals_succ]
    split
    · rename_i value hround
      obtain ⟨d, -, hvalue⟩ := round_eq_stored_iff.mp hround
      apply ih
      intro name v hmem
      rcases Entries.mem_put hmem with hold | hnew
      · exact hlocals name v hold
      · obtain ⟨-, rfl⟩ := Prod.mk.inj hnew
        exact Draft.evaluate_distinct ⟨hvars, hlocals⟩ d _ _ hvalue
    · exact ih _ _ hlocals
    · exact .error _

end Context

/-- The context of a document is distinct if what it is made from is. -/
theorem Document.resolveContext_distinct {document : Document} {overrides : Entries Value}
    (hoverrides : ∀ name v, (name, v) ∈ overrides → v.Distinct)
    (hvars : ∀ v ∈ document.vars, ∀ value, v.default = some value → value.Distinct) :
    Ensures (document.resolveContext overrides) Context.Distinct := by
  intro context hcontext
  obtain ⟨heq, hrun⟩ := resolveContext_eq_ok_iff.mp hcontext
  have hdistinct : ∀ name v, (name, v) ∈ context.vars → v.Distinct := by
    rw [heq]
    exact Context.variablesOf_distinct hoverrides hvars
  exact ⟨hdistinct, Context.resolveLocals_distinct hdistinct (by simp) _ hrun⟩

end Deployment
