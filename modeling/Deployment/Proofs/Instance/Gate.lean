import Deployment.Proofs.Entries
import Deployment.Proofs.Instance.Copies
import Deployment.Proofs.Number.Zero

/-! # The gate and the expansion agree

A count is looked at twice. The gate asks whether it switches its resource off, which is a question
about doubles, truth values and texts; later the expansion reads it as a whole number. A resource
that the gate keeps should have an instance, and one that it leaves out should have had none.

The two readings agree on every value (`Resource.disables_iff`), so the gate and the expansion agree
on every resource, down to the failures of counts that cannot be evaluated. The instances of a
resource with a count are `Counted`: copies of it, numbered from zero.
-/

namespace Deployment

/-! ## Counts that are zero -/

/-- A number asks for no instances exactly if it is the whole number zero. -/
theorem Instance.wholeCount_eq_zero_iff (n : Option Int64) :
    (n.bind fun n => if 0 ≤ n.toInt then some n.toInt.toNat else none) = some 0 ↔ n = some 0 := by
  cases n with
  | none => simp
  | some n =>
    rw [Option.bind_some, Option.some_inj, ← Int64.toInt_inj, Int64.toInt_zero]
    split
    · rw [Option.some_inj]
      omega
    · exact iff_of_false nofun (by omega)

/-- A count switches its resource off exactly if it asks for no instances. -/
theorem Resource.disables_iff (v : Value) :
    disables v = true ↔ Instance.wholeCount? v = some 0 := by
  cases v with
  | null => simp [disables, Instance.wholeCount?, Value.bool?]
  | bool b => cases b <;> simp [disables, Instance.wholeCount?, Value.bool?]
  | number n =>
    have hwhole : Instance.wholeCount? (.number n) =
        n.whole?.bind fun n => if 0 ≤ n.toInt then some n.toInt.toNat else none := rfl
    rw [hwhole, Instance.wholeCount_eq_zero_iff, ← Number.isZero_iff, disables]
  -- A text may be written as a truth value or as a number, and both readings look for the first of
  -- these first.
  | text s =>
    unfold disables Instance.wholeCount?
    cases (Value.text s).bool? with
    | some b => cases b <;> simp
    | none =>
      dsimp only
      rw [Instance.wholeCount_eq_zero_iff]
      cases (Value.text s).number? with
      | none => simp
      | some n => rw [Option.bind_some, ← Number.isZero_iff]
  | list items => simp [disables, Instance.wholeCount?, Value.bool?]
  | map entries => simp [disables, Instance.wholeCount?, Value.bool?]

/-- Both read a text as the number in it, and a zero may have a sign and a fraction. -/
example : Resource.disables (.text "-0.0") = true ∧
    Instance.wholeCount? (.text "-0.0") = some 0 := by
  decide +kernel

/-! ## The attributes of copies -/

/-- Binding attributes keeps their names, in order. -/
theorem Draft.bindAttributes_keys (b : Binding) (owner : String) (attributes : Entries Draft) :
    Ensures (bindAttributes b owner attributes) fun bound => bound.keys = attributes.keys := by
  induction attributes with
  | nil => exact .ok rfl
  | cons entry rest ih =>
    rw [bindAttributes]
    refine .after fun d => .bind ih fun others hothers => .ok ?_
    exact congrArg (entry.1 :: ·) hothers

namespace Instance

/-- A copy has the attributes that its template has. -/
theorem keyed_attributes (template : Instance) (key : IndexKey) (b : Binding) :
    Ensures (template.keyed key b) fun i => i.attributes.keys = template.attributes.keys :=
  .bind (Draft.bindAttributes_keys b _ _) fun _ h => .ok h

/-- Numbered copies have the attributes of their template. -/
theorem numbered_attributes (template : Instance) (ns : List Nat) :
    Ensures (numbered template ns) fun instances =>
      ∀ i ∈ instances, i.attributes.keys = template.attributes.keys := by
  intro instances h i hi
  rw [numbered_eq_mapM] at h
  obtain ⟨n, -, hn⟩ := (Except.mem_of_mapM_eq_ok h i).mp hi
  exact keyed_attributes _ _ _ i hn

/-! ## Counted instances -/

variable {context : Context} {limit : Nat} {r : Resource} {count : Draft} {v : Value}
  {instances : List Instance}

/-- The instances of a resource with a count, if it has any: copies of the resource, numbered in
order, that have all of its attributes but the count. -/
structure Counted (r : Resource) (limit : Nat) (instances : List Instance) : Prop where
  pos : 0 < instances.length
  le_limit : instances.length ≤ limit
  keys : instances.map key = (List.range instances.length).map fun n => some (.number n)
  copies : ∀ i ∈ instances, IsCopy (ofResource r) i
  attributes : ∀ i ∈ instances, i.attributes.keys = r.attributes.keys.erase countAttribute

/-- Numbered copies of a resource are counted instances of it. -/
theorem counted_of_numbered {n : Nat} (hlimit : n ≤ limit) (hne : instances ≠ [])
    (h : numbered (ofResource { r with attributes := r.attributes.remove countAttribute })
      (List.range n) = .ok instances) : Counted r limit instances := by
  obtain ⟨hcopies, hkeys⟩ := numbered_eq_ok h
  have hlength : instances.length = n := by
    simpa using congrArg List.length hkeys
  refine ⟨List.length_pos_iff.mpr hne, hlength.trans_le hlimit, ?keys, ?copies, ?attributes⟩
  case keys =>
    rw [hkeys, hlength, List.map_map]
    rfl
  case copies =>
    intro i hi
    obtain ⟨htype, hname, hprovider⟩ := hcopies i hi
    exact ⟨htype, hname, hprovider⟩
  case attributes =>
    intro i hi
    rw [numbered_attributes _ _ _ h i hi]
    exact Entries.keys_remove _ _

/-- What the expansion of a resource whose count has a value returns. -/
theorem expandCount_eq_ok_iff (hcount : r.attributes.get? countAttribute = some count)
    (hforEach : r.attributes.has forEachAttribute = false)
    (hv : count.evaluate context (Draft.entryLocation r.address countAttribute) = .ok v) :
    expandCount context limit r = .ok instances ↔ ∃ n, wholeCount? v = some n ∧ n ≤ limit ∧
      numbered (ofResource { r with attributes := r.attributes.remove countAttribute })
        (List.range n) = .ok instances := by
  unfold expandCount
  rw [hcount]
  dsimp only
  rw [hforEach, if_neg Bool.false_ne_true, Except.bind_eq_ok]
  simp only [hv, Except.ok.injEq, exists_eq_left']
  cases wholeCount? v with
  | none => simp
  | some n =>
    dsimp only
    split
    · rename_i hlimit
      refine iff_of_false nofun ?_
      rintro ⟨m, hm, hle, -⟩
      cases hm
      omega
    · rename_i hlimit
      constructor
      · intro h
        exact ⟨n, rfl, by omega, h⟩
      · rintro ⟨m, hm, -, h⟩
        cases hm
        exact h

/-- A resource has no instances exactly if its count is the whole number zero. -/
theorem expandCount_eq_nil_iff (hcount : r.attributes.get? countAttribute = some count)
    (hforEach : r.attributes.has forEachAttribute = false)
    (hv : count.evaluate context (Draft.entryLocation r.address countAttribute) = .ok v) :
    expandCount context limit r = .ok [] ↔ wholeCount? v = some 0 := by
  rw [expandCount_eq_ok_iff hcount hforEach hv]
  constructor
  · rintro ⟨n, hn, -, h⟩
    have hlength := congrArg List.length (numbered_eq_ok h).2
    obtain rfl : n = 0 := by simpa using hlength.symm
    exact hn
  · intro h
    exact ⟨0, h, Nat.zero_le _, rfl⟩

end Instance

/-! ## The agreement -/

namespace Resource

open Instance

/-- The resource has a count that is not even a value: it cannot be evaluated, or the resource has a
`for_each` as well. -/
def Uncountable (context : Context) (r : Resource) : Prop :=
  ∃ count, r.attributes.get? countAttribute = some count ∧
    (r.attributes.has forEachAttribute = true ∨
      ∃ f, count.evaluate context (Draft.entryLocation r.address countAttribute) = .error f)

/-- The gate fails for the reason for which the expansion would fail. -/
theorem Uncountable.fails {context : Context} {r : Resource} (h : Uncountable context r)
    (limit : Nat) : ∃ f, exists? context r = .error f ∧ expandCount context limit r = .error f := by
  obtain ⟨count, hcount, h⟩ := h
  unfold exists? expandCount
  rw [hcount]
  dsimp only
  split
  · exact ⟨_, rfl, rfl⟩
  · rename_i hforEach
    obtain ⟨f, hf⟩ := h.resolve_left hforEach
    rw [hf]
    exact ⟨f, rfl, rfl⟩

/-- The gate and the expansion fail alike on a count that is not a value. They agree on which
resources have no instances, and those that a resource with a count has are numbered copies. -/
theorem gate_agrees_expandCount (context : Context) (limit : Nat) (r : Resource) :
    (Uncountable context r →
      ∃ f, exists? context r = .error f ∧ expandCount context limit r = .error f) ∧
    (exists? context r = .ok false ↔ expandCount context limit r = .ok []) ∧
    (r.attributes.has countAttribute = true → ∀ instances,
      expandCount context limit r = .ok instances → instances ≠ [] →
        Counted r limit instances) := by
  refine ⟨fun h => h.fails limit, ?_⟩
  -- A count that is not a value, no count, and a count with a value are the three cases.
  by_cases hun : Uncountable context r
  · obtain ⟨f, hexists, hexpand⟩ := hun.fails limit
    rw [hexists, hexpand]
    exact ⟨iff_of_false nofun nofun, nofun⟩
  · cases hcount : r.attributes.get? countAttribute with
    | none =>
      have hhas : r.attributes.has countAttribute = false := Entries.has_eq_false_iff.mpr hcount
      unfold exists? expandCount
      rw [hcount, hhas]
      exact ⟨iff_of_false nofun nofun, nofun⟩
    | some count =>
      have hforEach : r.attributes.has forEachAttribute = false := by
        rw [← Bool.not_eq_true]
        exact fun h => hun ⟨count, hcount, .inl h⟩
      cases hv : count.evaluate context (Draft.entryLocation r.address countAttribute) with
      | error f => exact absurd ⟨count, hcount, .inr ⟨f, hv⟩⟩ hun
      | ok v =>
        have hexists : exists? context r = .ok (!disables v) := by
          unfold exists?
          rw [hcount]
          dsimp only
          rw [hforEach, if_neg Bool.false_ne_true, hv]
          rfl
        constructor
        · rw [hexists, expandCount_eq_nil_iff hcount hforEach hv, ← disables_iff]
          simp
        · intro _ instances h hne
          obtain ⟨n, -, hlimit, h⟩ := (expandCount_eq_ok_iff hcount hforEach hv).mp h
          exact counted_of_numbered hlimit hne h

/-- A resource with a count between its other attributes. -/
def pair : Resource :=
  ⟨"aws_instance", "web", none,
    [("size", .text "$\x7bcount.index\x7d"), ("count", .number (.integer 2)), ("zone", .text "a")]⟩

/-- The gate keeps the resource, and it has two numbered instances. -/
theorem pair_gate_agrees : exists? ⟨[], []⟩ pair ≠ .ok false ∧
    ∃ instances, expandCount ⟨[], []⟩ 2 pair = .ok instances ∧ Counted pair 2 instances := by
  have hexpand : expandCount ⟨[], []⟩ 2 pair = .ok
      [⟨"aws_instance", "web", none, some (.number 0), [("size", .text "$\x7b0\x7d"),
        ("zone", .text "a")]⟩,
      ⟨"aws_instance", "web", none, some (.number 1), [("size", .text "$\x7b1\x7d"),
        ("zone", .text "a")]⟩] := by
    cbv
  obtain ⟨-, hagree, hcounted⟩ := gate_agrees_expandCount ⟨[], []⟩ 2 pair
  refine ⟨fun h => ?_, _, hexpand, hcounted rfl _ hexpand (by simp)⟩
  rw [hagree, hexpand] at h
  cases h

end Resource

end Deployment
