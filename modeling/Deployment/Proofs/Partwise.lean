import Deployment.Proofs.Ensures

/-! # Stages that work on every part by itself

A stage makes a list of a list and may fail. It works *partwise* if it succeeds on a list exactly if
it succeeds on both parts that the list is cut into, with the results of the parts behind one
another. A stage that goes through its input member by member works so (`Partwise.of_cons`), and so
do two stages of which the second works on the complete output of the first (`Partwise.comp`). Then
nothing but the single members decides about success and result (`Partwise.eq_ok_iff`). Which
failure is found first may well depend on the order of the stages.
-/

namespace Deployment

variable {ε ε' α β γ : Type}

/-- The stage succeeds on a list exactly if it succeeds on its parts, with their results. -/
structure Partwise (stage : List α → Except ε (List β)) : Prop where
  nil : stage [] = .ok []
  append {xs ys : List α} {zs : List β} :
    stage (xs ++ ys) = .ok zs ↔ ∃ as bs, stage xs = .ok as ∧ stage ys = .ok bs ∧ zs = as ++ bs

namespace Partwise

variable {stage : List α → Except ε (List β)}

/-- Stages that go through their input put the result for the first member before the rest. -/
theorem of_cons (single : α → Except ε (List β)) (hnil : stage [] = .ok [])
    (hcons : ∀ x rest, stage (x :: rest) = (do
      let block ← single x
      let others ← stage rest
      .ok (block ++ others))) : Partwise stage where
  nil := hnil
  append {xs ys zs} := by
    induction xs generalizing zs with
    | nil =>
      constructor
      · intro h
        exact ⟨[], zs, hnil, h, rfl⟩
      · rintro ⟨as, bs, has, hbs, rfl⟩
        obtain rfl := Except.ok.inj (hnil.symm.trans has)
        exact hbs
    | cons x rest ih =>
      rw [List.cons_append, hcons, hcons]
      constructor
      · intro h
        obtain ⟨block, hblock, h⟩ := Except.bind_eq_ok.mp h
        obtain ⟨others, hothers, h⟩ := Except.bind_eq_ok.mp h
        obtain rfl := Except.ok.inj h
        obtain ⟨as, bs, has, hbs, rfl⟩ := ih.mp hothers
        refine ⟨block ++ as, bs, ?_, hbs, (List.append_assoc _ _ _).symm⟩
        exact Except.bind_eq_ok.mpr ⟨block, hblock, Except.bind_eq_ok.mpr ⟨as, has, rfl⟩⟩
      · rintro ⟨as, bs, has, hbs, rfl⟩
        obtain ⟨block, hblock, has⟩ := Except.bind_eq_ok.mp has
        obtain ⟨others, hothers, has⟩ := Except.bind_eq_ok.mp has
        obtain rfl := Except.ok.inj has
        refine Except.bind_eq_ok.mpr ⟨block, hblock, Except.bind_eq_ok.mpr ⟨others ++ bs, ?_, ?_⟩⟩
        · exact ih.mpr ⟨others, bs, hothers, hbs, rfl⟩
        · rw [List.append_assoc]

/-- What is returned for the members is returned for the list, and what is wrong with the list is
wrong with one of them. -/
theorem concludes_of_cons (stage : List α → Except ε (List β)) (single : α → Except ε (List β))
    (hnil : stage [] = .ok [])
    (hcons : ∀ x rest, stage (x :: rest) = (do
      let block ← single x
      let others ← stage rest
      .ok (block ++ others)))
    {p : β → Prop} {q : ε → Prop} {xs : List α}
    (h : ∀ x ∈ xs, Concludes (single x) (fun ys => ∀ y ∈ ys, p y) q) :
    Concludes (stage xs) (fun ys => ∀ y ∈ ys, p y) q := by
  induction xs with
  | nil =>
    rw [hnil]
    exact .ok (by simp)
  | cons x rest ih =>
    obtain ⟨hx, hrest⟩ := List.forall_mem_cons.mp h
    rw [hcons]
    refine hx.bind fun block hblock => (ih hrest).bind fun others hothers => .ok ?_
    exact List.forall_mem_append.mpr ⟨hblock, hothers⟩

/-- A computation for every member of a list. -/
theorem mapM (f : α → Except ε β) : Partwise (List.mapM f) := by
  refine of_cons (fun x => f x >>= fun y => .ok [y]) rfl fun x rest => ?_
  rw [List.mapM_cons]
  cases f x <;> rfl

theorem mapError (h : Partwise stage) (f : ε → ε') : Partwise fun xs => (stage xs).mapError f where
  nil := Except.mapError_eq_ok.mpr h.nil
  append := by simp only [Except.mapError_eq_ok, h.append, implies_true]

/-- The second stage works on all that the first one returns, which may be more or fewer members. -/
theorem comp (h : Partwise stage) {next : List β → Except ε (List γ)} (hnext : Partwise next) :
    Partwise fun xs => stage xs >>= next where
  nil := Except.bind_eq_ok.mpr ⟨[], h.nil, hnext.nil⟩
  append {xs ys zs} := by
    constructor
    · intro hall
      obtain ⟨mid, hmid, hzs⟩ := Except.bind_eq_ok.mp hall
      obtain ⟨as, bs, has, hbs, rfl⟩ := h.append.mp hmid
      obtain ⟨cs, ds, hcs, hds, rfl⟩ := hnext.append.mp hzs
      exact ⟨cs, ds, Except.bind_eq_ok.mpr ⟨as, has, hcs⟩, Except.bind_eq_ok.mpr ⟨bs, hbs, hds⟩,
        rfl⟩
    · rintro ⟨cs, ds, hxs, hys, rfl⟩
      obtain ⟨as, has, hcs⟩ := Except.bind_eq_ok.mp hxs
      obtain ⟨bs, hbs, hds⟩ := Except.bind_eq_ok.mp hys
      refine Except.bind_eq_ok.mpr ⟨as ++ bs, ?_, ?_⟩
      · exact h.append.mpr ⟨as, bs, has, hbs, rfl⟩
      · exact hnext.append.mpr ⟨cs, ds, hcs, hds, rfl⟩

/-- A stage succeeds exactly if it succeeds on every member. -/
theorem succeeds_iff (h : Partwise stage) {xs : List α} :
    (∃ zs, stage xs = .ok zs) ↔ ∀ x ∈ xs, ∃ part, stage [x] = .ok part := by
  induction xs with
  | nil =>
    constructor
    · intro _ x hx
      cases hx
    · intro _
      exact ⟨[], h.nil⟩
  | cons x rest ih =>
    rw [List.forall_mem_cons, ← ih, ← List.singleton_append]
    constructor
    · rintro ⟨zs, hzs⟩
      obtain ⟨part, others, hpart, hothers, -⟩ := h.append.mp hzs
      exact ⟨⟨part, hpart⟩, ⟨others, hothers⟩⟩
    · rintro ⟨⟨part, hpart⟩, ⟨others, hothers⟩⟩
      exact ⟨part ++ others, h.append.mpr ⟨part, others, hpart, hothers, rfl⟩⟩

/-- A list is worked on exactly as its members are one by one. -/
theorem eq_ok_iff (h : Partwise stage) {xs : List α} {zs : List β} :
    stage xs = .ok zs ↔
      ∃ parts, List.Forall₂ (fun x part => stage [x] = .ok part) xs parts ∧ zs = parts.flatten := by
  induction xs generalizing zs with
  | nil =>
    constructor
    · intro hzs
      obtain rfl := Except.ok.inj (h.nil.symm.trans hzs)
      exact ⟨[], .nil, rfl⟩
    · rintro ⟨parts, hparts, rfl⟩
      cases hparts
      exact h.nil
  | cons x rest ih =>
    rw [← List.singleton_append, h.append]
    constructor
    · rintro ⟨part, others, hpart, hothers, rfl⟩
      obtain ⟨parts, hparts, rfl⟩ := ih.mp hothers
      exact ⟨part :: parts, .cons hpart hparts, rfl⟩
    · rintro ⟨parts, hparts, rfl⟩
      obtain _ | ⟨hpart, hparts⟩ := hparts
      exact ⟨_, _, hpart, ih.mpr ⟨_, hparts, rfl⟩, rfl⟩

/-- Whatever is returned for a list is returned for one of its members. -/
theorem mem_iff (h : Partwise stage) {xs : List α} {zs : List β} (hzs : stage xs = .ok zs) {y : β} :
    y ∈ zs ↔ ∃ x ∈ xs, ∃ part, stage [x] = .ok part ∧ y ∈ part := by
  obtain ⟨parts, hparts, rfl⟩ := h.eq_ok_iff.mp hzs
  clear hzs
  induction hparts with
  | nil => simp
  | @cons x part rest parts hpart _ ih =>
    have hfirst : (∃ part', stage [x] = .ok part' ∧ y ∈ part') ↔ y ∈ part := by
      rw [hpart]
      simp
    rw [List.flatten_cons, List.mem_append, List.exists_mem_cons_iff, ih, hfirst]

/-- What every member is made into has a property, so everything that is returned has it. -/
theorem forall_mem (h : Partwise stage) {p : α → Prop} {q : β → Prop}
    (hsingle : ∀ x, p x → Ensures (stage [x]) fun part => ∀ y ∈ part, q y) {xs : List α}
    (hxs : ∀ x ∈ xs, p x) : Ensures (stage xs) fun zs => ∀ y ∈ zs, q y := by
  intro zs hzs y hy
  obtain ⟨x, hx, part, hpart, hmem⟩ := (h.mem_iff hzs).mp hy
  exact hsingle x (hxs x hx) part hpart y hmem

end Partwise

end Deployment
