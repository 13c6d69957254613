import Deployment.Context.Resolution
import Deployment.Proofs.Evaluation.Agreement

/-! # Evaluating while local values are missing

Local values are evaluated on demand, so a draft is evaluated several times in contexts that know
more and more of them. Compare such a context with one in which the evaluation succeeds, the two
giving no name different values. `Tracks` is what holds then: the evaluation with the local values
that are known so far gives the same value, or it stops at a local value that is still missing
although the other context has it. In particular adding local values never changes a success
(`Draft.evaluate_mono`).
-/

namespace Deployment

namespace Context

/-- Two scopes that give no name different values. -/
def Compatible (known full : Entries Value) : Prop :=
  ∀ name v w, known.get? name = some v → full.get? name = some w → v = w

/-- An evaluation that stopped at a local value which is not known, but is in `full`. -/
def Awaits (known full : Entries Value) {α : Type} (s : Except Failure α) : Prop :=
  ∃ name location, s = .error (.unresolved (localName name) location) ∧
    known.get? name = none ∧ full.has name

/-- If the evaluation `r` with the local values in `full` succeeds, the evaluation `s` with the
`known` ones has the same value or awaits one that is missing. -/
def Tracks (known full : Entries Value) {α : Type} (r s : Except Failure α) : Prop :=
  ∀ v, r = .ok v → s = .ok v ∨ Awaits known full s

namespace Tracks

variable {known full : Entries Value} {α β : Type}

/-- Evaluations that agree track each other. -/
theorem of_agree {r s : Except Failure α} (h : Agree r s) : Tracks known full r s :=
  fun _ hr => .inl (h.ok_left hr)

/-- Two results that come from the same data, up to what they report. -/
theorem of_toOption {r s : Except Failure α} {o : Option α} (hr : r.toOption = o)
    (hs : s.toOption = o) : Tracks known full r s :=
  of_agree (hr.trans hs.symm)

/-- A value tracks itself. -/
theorem ok (v : α) : Tracks known full (.ok v : Except Failure α) (.ok v) :=
  of_agree (.refl _)

/-- A failure tracks to anything. -/
theorem error (e : Failure) (s : Except Failure α) : Tracks known full (.error e) s := by
  rintro v ⟨⟩

/-- A sequence tracks another one if its steps do: where the first step awaits a local value, so
does the whole. -/
theorem bind {r s : Except Failure α} {f g : α → Except Failure β} (h : Tracks known full r s)
    (hf : ∀ v, Tracks known full (f v) (g v)) : Tracks known full (r >>= f) (s >>= g) := by
  intro w hw
  cases r with
  | error e => cases hw
  | ok v =>
    rcases h v rfl with rfl | ⟨name, location, rfl, hmissing, hfull⟩
    · exact hf v w hw
    · exact .inr ⟨name, location, rfl, hmissing, hfull⟩

/-- A choice tracks another one on the same condition if both branches do. -/
theorem ite {b : Bool} {r s r' s' : Except Failure α} (h : Tracks known full r s)
    (h' : Tracks known full r' s') :
    Tracks known full (if b then r else r') (if b then s else s') := by
  cases b
  · exact h'
  · exact h

end Tracks

/-- A reference awaits at most the local value that it starts with. -/
theorem Compatible.lookup_tracks {known full : Entries Value} (h : Compatible known full)
    (vars : Entries Value) (r : Reference) (location location' : String) :
    Tracks known full (lookup ⟨vars, full⟩ r location) (lookup ⟨vars, known⟩ r location') := by
  -- Other roots do not depend on the local values at all.
  by_cases hroot : r.root = "local"
  · obtain ⟨root, path⟩ := r
    subst hroot
    simp only [lookup, resolve]
    split
    · exact .error _ _
    · rename_i name rest
      cases hf : full.get? name with
      | none => exact .error _ _
      | some w =>
        cases hk : known.get? name with
        | none =>
          exact fun _ _ => .inr ⟨name, location', rfl, hk, by simp [Entries.has, hf]⟩
        | some v =>
          obtain rfl := h name v w hk hf
          exact .of_agree (Value.follow_toOption _ _ _ _ _ _)
  · refine .of_agree (.trans ?_ (lookup_agree ⟨vars, known⟩ r location location'))
    unfold lookup
    split <;> first | rfl | exact absurd ‹_› hroot

end Context

open Context

/-! ## Expressions -/

namespace Expr

variable {known full vars : Entries Value} {location location' : String}

attribute [local simp] evaluate evaluateItems evaluateEntries evaluateParts

/-- Items track each other one by one. -/
theorem evaluateItems_tracks {items : List Expr}
    (h : ∀ e ∈ items, Tracks known full (evaluate ⟨vars, full⟩ location e)
      (evaluate ⟨vars, known⟩ location' e)) :
    Tracks known full (evaluateItems ⟨vars, full⟩ location items)
      (evaluateItems ⟨vars, known⟩ location' items) := by
  induction items with
  | nil => exact .ok _
  | cons e rest ih =>
    simp only [evaluateItems]
    exact (h e (by simp)).bind fun v => (ih fun e he => h e (by simp [he])).bind fun vs => .ok _

/-- Entries track each other one by one, and the same keys are refused. -/
theorem evaluateEntries_tracks {entries : List (Expr × Expr)}
    (h : ∀ key e, (key, e) ∈ entries →
      Tracks known full (evaluate ⟨vars, full⟩ location key)
        (evaluate ⟨vars, known⟩ location' key) ∧
      Tracks known full (evaluate ⟨vars, full⟩ location e)
        (evaluate ⟨vars, known⟩ location' e))
    (seen : Entries Value) :
    Tracks known full (evaluateEntries ⟨vars, full⟩ location seen entries)
      (evaluateEntries ⟨vars, known⟩ location' seen entries) := by
  induction entries generalizing seen with
  | nil => exact .ok _
  | cons entry rest ih =>
    obtain ⟨key, e⟩ := entry
    have hentry := h key e (by simp)
    simp only [evaluateEntries]
    refine hentry.1.bind fun v => Tracks.bind
      (.of_toOption (Value.asKey_toOption ..) (Value.asKey_toOption ..)) fun k => ?_
    split
    · exact .error _ _
    · exact hentry.2.bind fun v => ih (fun key e he => h key e (by simp [he])) _

/-- Templates track each other through what they interpolate. -/
theorem evaluateParts_tracks {parts : List (Part Expr)}
    (h : ∀ e, .interpolation e ∈ parts → Tracks known full (evaluate ⟨vars, full⟩ location e)
      (evaluate ⟨vars, known⟩ location' e)) :
    Tracks known full (evaluateParts ⟨vars, full⟩ location parts)
      (evaluateParts ⟨vars, known⟩ location' parts) := by
  induction parts with
  | nil => exact .ok _
  | cons part rest ih =>
    have hrest := ih fun e he => h e (by simp [he])
    cases part with
    | text s =>
      simp only [evaluateParts]
      exact hrest.bind fun t => .ok _
    | interpolation e =>
      simp only [evaluateParts]
      exact (h e (by simp)).bind fun v => Tracks.bind
        (.of_toOption (Value.asSplice_toOption ..) (Value.asSplice_toOption ..)) fun s =>
          hrest.bind fun t => .ok _

/-- An expression tracks itself with fewer local values. -/
theorem evaluate_tracks (hc : Compatible known full) (e : Expr) :
    Tracks known full (evaluate ⟨vars, full⟩ location e) (evaluate ⟨vars, known⟩ location' e) := by
  have condition (v : Value) (w w' : String) :
      Tracks known full (v.asCondition w location) (v.asCondition w' location') :=
    .of_toOption (Value.asCondition_toOption ..) (Value.asCondition_toOption ..)
  -- By induction on the expression. Apart from references, everything depends on the values of
  -- parts only.
  induction e with
  | literal v => simpa using .ok v
  | template parts ih =>
    cases hs : Template.single? parts with
    | some e =>
      obtain rfl : parts = [.interpolation e] := Template.eq_of_single? hs
      simpa using ih e (by simp)
    | none =>
      rw [evaluate_template _ _ hs, evaluate_template _ _ hs]
      exact (evaluateParts_tracks ih).bind fun s => .ok _
  | reference r => simpa using hc.lookup_tracks vars r location location'
  | list items ih =>
    simp only [evaluate]
    exact (evaluateItems_tracks ih).bind fun vs => .ok _
  | map entries ih =>
    simp only [evaluate]
    exact (evaluateEntries_tracks ih []).bind fun vs => .ok _
  | access object name ih =>
    simp only [evaluate]
    exact ih.bind fun v =>
      .of_toOption (Value.getAttribute_toOption ..) (Value.getAttribute_toOption ..)
  | index object key ih ihk =>
    simp only [evaluate]
    exact ih.bind fun v => ihk.bind fun k =>
      .of_toOption (Value.getIndex_toOption ..) (Value.getIndex_toOption ..)
  | unary op operand ih =>
    cases op with
    | not =>
      simp only [evaluate]
      exact ih.bind fun v => (condition v _ _).bind fun b => .ok _
    | neg =>
      simp only [evaluate]
      exact ih.bind fun v => .of_toOption (applyNegation_toOption ..) (applyNegation_toOption ..)
  | binary op left right ihl ihr =>
    cases op with
    | and =>
      simp only [evaluate]
      exact ihl.bind fun v => (condition v _ _).bind fun b =>
        .ite (ihr.bind fun w => (condition w _ _).bind fun b => .ok _) (.ok _)
    | or =>
      simp only [evaluate]
      exact ihl.bind fun v => (condition v _ _).bind fun b =>
        .ite (.ok _) (ihr.bind fun w => (condition w _ _).bind fun b => .ok _)
    | equal =>
      simp only [evaluate]
      exact ihl.bind fun a => ihr.bind fun b => .ok _
    | notEqual =>
      simp only [evaluate]
      exact ihl.bind fun a => ihr.bind fun b => .ok _
    | order op =>
      simp only [evaluate]
      exact ihl.bind fun a => ihr.bind fun b =>
        .of_toOption (applyOrder_toOption ..) (applyOrder_toOption ..)
    | arithmetic op =>
      simp only [evaluate]
      exact ihl.bind fun a => ihr.bind fun b =>
        .of_toOption (applyArithmetic_toOption ..) (applyArithmetic_toOption ..)
  | conditional condition' yes no ih ihy ihn =>
    simp only [evaluate]
    exact ih.bind fun v => (condition v _ _).bind fun b => .ite ihy ihn
  | call name args ih =>
    simp only [evaluate]
    split
    · exact .error _ _
    · exact (evaluateItems_tracks ih).bind fun vs =>
        .of_toOption (applyCall_toOption ..) (applyCall_toOption ..)

end Expr

/-! ## Drafts -/

namespace Template

variable {known full vars : Entries Value}

/-- A text tracks itself with fewer local values. -/
theorem evaluateText_tracks (hc : Compatible known full) (location location' text : String) :
    Tracks known full (evaluateText ⟨vars, full⟩ location text)
      (evaluateText ⟨vars, known⟩ location' text) := by
  unfold evaluateText
  split
  · exact Expr.evaluate_tracks hc _
  · exact .error _ _

/-- A key with few locals tracks the one with all of them. -/
theorem evaluateKey_tracks (hc : Compatible known full) (location location' template : String) :
    Tracks known full (evaluateKey ⟨vars, full⟩ location template)
      (evaluateKey ⟨vars, known⟩ location' template) :=
  (evaluateText_tracks hc location location' template).bind fun _ =>
    .of_toOption (Value.asKey_toOption ..) (Value.asKey_toOption ..)

end Template

namespace Draft

variable {known full vars : Entries Value}

/-- The items of a list draft track each other, wherever it stands. -/
theorem evaluateItems_tracks {items : List Draft}
    (h : ∀ d ∈ items, ∀ location location', Tracks known full
      (evaluate ⟨vars, full⟩ location d) (evaluate ⟨vars, known⟩ location' d))
    (location location' : String) (i j : Nat) :
    Tracks known full (evaluateItems ⟨vars, full⟩ location i items)
      (evaluateItems ⟨vars, known⟩ location' j items) := by
  induction items generalizing i j with
  | nil => exact .ok _
  | cons d rest ih =>
    simp only [evaluateItems]
    exact (h d (by simp) _ _).bind fun v =>
      (ih (fun d hd => h d (by simp [hd])) _ _).bind fun vs => .ok _

/-- The entries of a map draft track each other, wherever it stands. -/
theorem evaluateEntries_tracks (hc : Compatible known full) {entries : List (String × Draft)}
    (h : ∀ template d, (template, d) ∈ entries → ∀ location location', Tracks known full
      (evaluate ⟨vars, full⟩ location d) (evaluate ⟨vars, known⟩ location' d))
    (location location' : String) (seen : Entries Value) :
    Tracks known full (evaluateEntries ⟨vars, full⟩ location seen entries)
      (evaluateEntries ⟨vars, known⟩ location' seen entries) := by
  induction entries generalizing seen with
  | nil => exact .ok _
  | cons entry rest ih =>
    obtain ⟨template, d⟩ := entry
    simp only [evaluateEntries]
    refine (Template.evaluateKey_tracks hc location location' template).bind fun key =>
      (h template d (by simp) _ _).bind fun v => ?_
    split
    · exact .error _ _
    · exact ih (fun template d hd => h template d (by simp [hd])) _

/-- Where a draft has a value, an evaluation with other local values has the same value or awaits
a local value. -/
theorem evaluate_tracks (hc : Compatible known full) (location location' : String) (d : Draft) :
    Tracks known full (evaluate ⟨vars, full⟩ location d)
      (evaluate ⟨vars, known⟩ location' d) := by
  induction d generalizing location location' with
  | null => exact .ok _
  | bool b => exact .ok _
  | number n => exact .ok _
  | text template => exact Template.evaluateText_tracks hc location location' template
  | list items ih =>
    simp only [evaluate]
    exact (evaluateItems_tracks (fun d hd l l' => ih d hd l l') _ _ 0 0).bind fun vs => .ok _
  | map entries ih =>
    simp only [evaluate]
    exact (evaluateEntries_tracks hc (fun t d hd l l' => ih t d hd l l') _ _ []).bind
      fun vs => .ok _

/-- Adding local values, without changing those that are known, never changes a value. -/
theorem evaluate_mono {known full vars : Entries Value}
    (hle : ∀ name v, known.get? name = some v → full.get? name = some v)
    (location location' : String) (d : Draft) {v : Value}
    (h : evaluate ⟨vars, known⟩ location d = .ok v) :
    evaluate ⟨vars, full⟩ location' d = .ok v := by
  have hc : Compatible full known := fun name w w' hw hw' =>
    Option.some.inj (hw.symm.trans (hle name w' hw'))
  rcases evaluate_tracks hc location location' d v h with hv | ⟨name, _, _, hnone, hhas⟩
  · exact hv
  · obtain ⟨w, hw⟩ := Option.isSome_iff_exists.mp hhas
    rw [hle name w hw] at hnone
    cases hnone

end Draft

end Deployment
