import Mathlib.Data.List.Forall2

/-! # Computations that succeed

A computation in steps succeeds if all its steps do (`Except.bind_eq_ok`). It *ensures* a property
if whatever it returns has it. There is one lemma for each way to put computations together, so that
a proof follows the text of the computation.
-/

namespace Deployment

namespace Except

variable {ε ε' α β : Type} {r : Except ε α}

/-- Two steps succeed together exactly if both do. -/
theorem bind_eq_ok {f : α → Except ε β} {b : β} :
    r >>= f = .ok b ↔ ∃ a, r = .ok a ∧ f a = .ok b := by
  cases r with
  | error e =>
    constructor
    · intro h
      cases h
    · rintro ⟨a, ha, -⟩
      cases ha
  | ok a =>
    constructor
    · intro h
      exact ⟨a, rfl, h⟩
    · rintro ⟨a', ha, h⟩
      cases ha
      exact h

/-- Two steps fail together exactly if one of them does, and it is the first failure that is
reported. -/
theorem bind_eq_error {f : α → Except ε β} {e : ε} :
    r >>= f = .error e ↔ r = .error e ∨ ∃ a, r = .ok a ∧ f a = .error e := by
  cases r with
  | error e' =>
    constructor
    · intro h
      cases h
      exact .inl rfl
    · rintro (h | ⟨a, ha, -⟩)
      · cases h
        rfl
      · cases ha
  | ok a =>
    constructor
    · intro h
      exact .inr ⟨a, rfl, h⟩
    · rintro (h | ⟨a', ha, h⟩)
      · cases h
      · cases ha
        exact h

/-- What follows a computation may be replaced for the results that it has. -/
theorem bind_congr {f g : α → Except ε β} (h : ∀ a, r = .ok a → f a = g a) :
    r >>= f = r >>= g := by
  cases r with
  | error e => rfl
  | ok a => exact h a rfl

/-- Rewording an error does not touch a success. -/
theorem mapError_eq_ok {f : ε → ε'} {a : α} : r.mapError f = .ok a ↔ r = .ok a := by
  cases r <;> simp [Except.mapError]

/-- A computation in two steps succeeds if the second step does whatever it is given. -/
theorem bind_succeeds {f : α → Except ε β} (h : ∃ a, r = .ok a) (hf : ∀ a, ∃ b, f a = .ok b) :
    ∃ b, r >>= f = .ok b := by
  obtain ⟨a, ha⟩ := h
  obtain ⟨b, hb⟩ := hf a
  exact ⟨b, bind_eq_ok.mpr ⟨a, ha, hb⟩⟩

/-- A computation for every member of a list returns what the single ones return, in order. -/
theorem mapM_eq_ok {f : α → Except ε β} {xs : List α} {ys : List β} :
    xs.mapM f = .ok ys ↔ List.Forall₂ (fun x y => f x = .ok y) xs ys := by
  induction xs generalizing ys with
  | nil =>
    rw [List.mapM_nil]
    constructor
    · intro h
      obtain rfl := Except.ok.inj h
      exact .nil
    · intro h
      cases h
      rfl
  | cons x rest ih =>
    rw [List.mapM_cons]
    constructor
    · intro h
      obtain ⟨y, hy, h⟩ := bind_eq_ok.mp h
      obtain ⟨others, hothers, h⟩ := bind_eq_ok.mp h
      obtain rfl := Except.ok.inj h
      exact .cons hy (ih.mp hothers)
    · intro h
      cases h with
      | cons hy hothers => exact bind_eq_ok.mpr ⟨_, hy, bind_eq_ok.mpr ⟨_, ih.mpr hothers, rfl⟩⟩

/-- A computation for a list succeeds if it does for every member. -/
theorem mapM_succeeds {f : α → Except ε β} {xs : List α} (h : ∀ x ∈ xs, ∃ y, f x = .ok y) :
    ∃ ys, xs.mapM f = .ok ys := by
  induction xs with
  | nil => exact ⟨[], rfl⟩
  | cons x rest ih =>
    obtain ⟨hx, hrest⟩ := List.forall_mem_cons.mp h
    rw [List.mapM_cons]
    exact bind_succeeds hx fun y => bind_succeeds (ih hrest) fun ys => ⟨y :: ys, rfl⟩

/-- What is returned for a list are the results for its members. -/
theorem mem_of_mapM_eq_ok {f : α → Except ε β} {xs : List α} {ys : List β}
    (h : xs.mapM f = .ok ys) (y : β) : y ∈ ys ↔ ∃ x ∈ xs, f x = .ok y := by
  have hall := mapM_eq_ok.mp h
  clear h
  induction hall with
  | nil => simp
  | @cons x z rest zs hz _ ih =>
    simp only [List.mem_cons, exists_eq_or_imp, ih, hz, Except.ok.injEq, eq_comm (a := z)]

/-- There is a result for every member. -/
theorem exists_of_mapM_eq_ok {f : α → Except ε β} {xs : List α} {ys : List β}
    (h : xs.mapM f = .ok ys) {x : α} (hx : x ∈ xs) : ∃ y, f x = .ok y := by
  have hall := mapM_eq_ok.mp h
  clear h
  induction hall with
  | nil => cases hx
  | @cons x' z rest zs hz _ ih =>
    rcases List.mem_cons.mp hx with rfl | hrest
    · exact ⟨z, hz⟩
    · exact ih hrest

/-- Only the computations for members of the list matter. -/
theorem mapM_congr {f g : α → Except ε β} {xs : List α} (h : ∀ x ∈ xs, f x = g x) :
    xs.mapM f = xs.mapM g := by
  induction xs with
  | nil => rfl
  | cons x rest ih =>
    obtain ⟨hx, hrest⟩ := List.forall_mem_cons.mp h
    rw [List.mapM_cons, List.mapM_cons, hx, ih hrest]

end Except

/-! ## Properties of what is returned -/

/-- Whatever the computation returns has the property. -/
def Ensures {ε α : Type} (r : Except ε α) (p : α → Prop) : Prop :=
  ∀ a, r = .ok a → p a

namespace Ensures

variable {ε ε' α β : Type} {r : Except ε α} {p p' : α → Prop} {q : β → Prop}

theorem ok {a : α} (h : p a) : Ensures (.ok a : Except ε α) p := by
  intro b hb
  cases hb
  exact h

theorem error (e : ε) : Ensures (.error e : Except ε α) p := by
  intro a ha
  cases ha

/-- A second step may rely on what the first one ensures. -/
theorem bind {f : α → Except ε β} (h : Ensures r p) (hf : ∀ a, p a → Ensures (f a) q) :
    Ensures (r >>= f) q := by
  intro b hb
  obtain ⟨a, ha, hb⟩ := Except.bind_eq_ok.mp hb
  exact hf a (h a ha) b hb

/-- What the first computation returns may not matter. -/
theorem after {f : α → Except ε β} (hf : ∀ a, Ensures (f a) q) : Ensures (r >>= f) q :=
  bind (p := fun _ => True) (fun _ _ => trivial) fun a _ => hf a

/-- What is made of a result has what the result gives it. -/
theorem map {f : α → β} (h : Ensures r p) (hf : ∀ a, p a → q (f a)) : Ensures (r.map f) q := by
  intro b hb
  cases r with
  | error e => cases hb
  | ok a =>
    obtain rfl := Except.ok.inj hb
    exact hf a (h a rfl)

/-- Rewording an error changes nothing about results. -/
theorem mapError (h : Ensures r p) (f : ε → ε') : Ensures (r.mapError f) p := by
  intro a ha
  exact h a (Except.mapError_eq_ok.mp ha)

/-- What ensures a property ensures every weaker one. -/
theorem mono (h : Ensures r p) (hp : ∀ a, p a → p' a) : Ensures r p' :=
  fun a ha => hp a (h a ha)

end Ensures

/-! ## Properties of results and errors -/

/-- Whatever the computation returns has the one property, and every error has the other one. -/
structure Concludes {ε α : Type} (r : Except ε α) (p : α → Prop) (q : ε → Prop) : Prop where
  ensures : Ensures r p
  fails : ∀ e, r = .error e → q e

namespace Concludes

variable {ε α β : Type} {r : Except ε α} {p p' : α → Prop} {p₁ : β → Prop} {q q' : ε → Prop}

theorem ok {a : α} (h : p a) : Concludes (.ok a) p q where
  ensures := .ok h
  fails e he := by cases he

theorem error {e : ε} (h : q e) : Concludes (.error e) p q where
  ensures := .error e
  fails e' he := by
    cases he
    exact h

/-- The errors of both steps are errors of the whole, so both need the property of errors. -/
theorem bind {f : α → Except ε β} (h : Concludes r p q) (hf : ∀ a, p a → Concludes (f a) p₁ q) :
    Concludes (r >>= f) p₁ q where
  ensures := h.ensures.bind fun a ha => (hf a ha).ensures
  fails e he := by
    obtain he | ⟨a, ha, he⟩ := Except.bind_eq_error.mp he
    · exact h.fails e he
    · exact (hf a (h.ensures a ha)).fails e he

/-- Rewording an error has to keep its property. -/
theorem mapError {ε' : Type} {f : ε → ε'} {q' : ε' → Prop} (h : Concludes r p q)
    (hf : ∀ e, q e → q' (f e)) : Concludes (r.mapError f) p q' where
  ensures := h.ensures.mapError f
  fails e' he := by
    cases r with
    | error e =>
      cases he
      exact hf e (h.fails e rfl)
    | ok a => cases he

theorem mono (h : Concludes r p q) (hp : ∀ a, p a → p' a) (hq : ∀ e, q e → q' e) :
    Concludes r p' q' where
  ensures := h.ensures.mono hp
  fails e he := hq e (h.fails e he)

theorem imp_fails (h : Concludes r p q) (hq : ∀ e, q e → q' e) : Concludes r p q' :=
  h.mono (fun _ ha => ha) hq

end Concludes

end Deployment
