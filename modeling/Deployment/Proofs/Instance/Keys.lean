import Deployment.Proofs.Evaluation.Distinct
import Deployment.Proofs.Instance.Copies

/-! # The instances of a resource have different keys

A resource is expanded twice: by its `count` into numbered instances, and by its `for_each` into
instances with the keys of a map or a set. Either step copies the labels of the resource, and an
instance that is numbered already is left alone by the second step. So all instances of one resource
have its labels and different keys, whatever the resource asks for (`Instance.expand_keys`). A
document whose resources differ in their labels has instances that differ in labels or key
(`Plan.instances_nodup`).
-/

namespace Deployment

/-- Type and name of a resource. -/
def Resource.labels (r : Resource) : String × String :=
  (r.type, r.name)

/-- The resource of a type and name is known by its address. -/
theorem Resource.labels_nodup {resources : List Resource}
    (h : (resources.map Resource.address).Nodup) : (resources.map Resource.labels).Nodup := by
  have heq : resources.map Resource.address =
      (resources.map Resource.labels).map fun labels => labels.1 ++ "." ++ labels.2 := by
    rw [List.map_map]
    rfl
  rw [heq] at h
  exact h.of_map

namespace Instance

/-- Type and name of the resource that the instance belongs to. -/
def labels (i : Instance) : String × String :=
  (i.type, i.name)

/-- Instances with the labels of a resource and different keys. -/
structure Family (labels : String × String) (instances : List Instance) : Prop where
  labels : ∀ i ∈ instances, i.labels = labels
  nodup : (instances.map key).Nodup

/-- A single instance needs no key. -/
theorem Family.single (i : Instance) : Family i.labels [i] :=
  ⟨by simp, List.nodup_singleton _⟩

/-- Copies for different keys. -/
theorem Family.of_keys {template : Instance} {instances : List Instance} {keys : List IndexKey}
    (hcopies : ∀ i ∈ instances, IsCopy template i) (hkeys : instances.map key = keys.map some)
    (h : keys.Nodup) : Family template.labels instances where
  labels i hi := by
    rw [Instance.labels, Instance.labels, (hcopies i hi).type, (hcopies i hi).name]
  nodup := by
    rw [hkeys]
    exact h.map (fun _ _ => Option.some.inj)

/-! ## Counted instances -/

/-- A resource has one instance without a key, or numbered ones. -/
theorem expandCount_eq_ok {context : Context} {limit : Nat} {r : Resource}
    {instances : List Instance} (h : expandCount context limit r = .ok instances) :
    instances = [ofResource r] ∨
      Family r.labels instances ∧ ∀ i ∈ instances, i.key.isSome := by
  unfold expandCount at h
  split at h
  · exact .inl (Except.ok.inj h).symm
  · dsimp only at h
    split at h
    · cases h
    · obtain ⟨v, -, h⟩ := Except.bind_eq_ok.mp h
      split at h
      · cases h
      · rename_i n _
        split at h
        · cases h
        · obtain ⟨hlabels, hkeys⟩ := numbered_eq_ok h
          -- The copies are numbered, and numbers of a range are different.
          refine .inr ⟨.of_keys hlabels hkeys ?_, ?_⟩
          · exact List.nodup_range.map fun _ _ heq => IndexKey.number.inj heq
          · intro i hi
            have hmem : i.key ∈ instances.map key := List.mem_map_of_mem hi
            rw [hkeys] at hmem
            obtain ⟨k, -, hk⟩ := List.mem_map.mp hmem
            rw [← hk]
            rfl

/-! ## Keyed instances -/

/-- The elements of a set are collected under different keys, since one that is there already is put
in its place. -/
theorem elements_nodup {seen : Entries Value} (h : seen.keys.Nodup) (items : List Value) :
    Ensures (elements seen items) fun entries => entries.keys.Nodup := by
  induction items generalizing seen with
  | nil => exact .ok h
  | cons v rest ih =>
    rw [elements]
    refine .after fun k => ?_
    apply ih
    split
    · exact h
    · exact Entries.nodup_keys_put h k v

/-- A collection is iterated over with different keys. -/
theorem iterated_nodup {v : Value} (h : v.Distinct) :
    Ensures (iterated v) fun entries => entries.keys.Nodup := by
  unfold iterated
  split
  · exact .ok h.nodup
  · apply elements_nodup
    exact List.nodup_nil
  · exact .error _

/-- The copies of an instance for the entries of a map or a set have its labels and different keys.
-/
theorem expandForEach_family {context : Context} (hcontext : context.Distinct) (limit : Nat)
    (i : Instance) : Ensures (expandForEach context limit i) (Family i.labels) := by
  unfold expandForEach
  split
  · exact .ok (.single i)
  · refine .bind (Draft.evaluate_distinct hcontext _ _) fun v hv => ?_
    split
    · exact .error _
    · rename_i entries hentries
      split
      · exact .error _
      · intro instances h
        obtain ⟨hcopies, hkeys⟩ := ofEntries_eq_ok h
        apply Family.of_keys hcopies hkeys
        exact (iterated_nodup hv entries hentries).map fun _ _ heq => IndexKey.text.inj heq

/-! ## Both steps -/

section Expansion

variable {context : Context} {limit : Nat}

/-- Instances with keys stay as they are. -/
theorem expandForEachs_of_keyed {instances : List Instance} (h : ∀ i ∈ instances, i.key.isSome) :
    expandForEachs context limit instances = .ok instances := by
  induction instances with
  | nil => rfl
  | cons i rest ih =>
    obtain ⟨hi, hrest⟩ := List.forall_mem_cons.mp h
    have hkeyed : i.key.isNone = false := by
      rw [Option.isNone_eq_false_iff]
      exact hi
    rw [expandForEachs_cons, expansion, hkeyed, if_neg Bool.false_ne_true, ih hrest]
    rfl

/-- All instances of a resource have its labels and different keys. -/
theorem expand_keys (hcontext : context.Distinct) {maxCount : Nat} {r : Resource}
    {counted : List Instance} (hcount : expandCount context maxCount r = .ok counted) :
    Ensures (expandForEachs context limit counted) (Family r.labels) := by
  rcases expandCount_eq_ok hcount with rfl | ⟨hfamily, hkeyed⟩
  · -- Without a count it is the second step that gives the keys, if any.
    intro instances h
    rw [expandForEachs_cons] at h
    obtain ⟨block, hblock, h⟩ := Except.bind_eq_ok.mp h
    obtain rfl : block ++ [] = instances := Except.ok.inj h
    rw [List.append_nil]
    exact expandForEach_family hcontext limit (ofResource r) block hblock
  · rw [expandForEachs_of_keyed hkeyed]
    exact .ok hfamily

/-- The labels of an instance and its key. -/
def coordinates (i : Instance) : (String × String) × Option IndexKey :=
  (i.labels, i.key)

/-- The instances of all resources differ: those of one in their keys, and those of two in their
labels. -/
theorem expandAll_nodup (hcontext : context.Distinct) {maxCount : Nat} {resources : List Resource}
    (hnodup : (resources.map Resource.labels).Nodup) {counted instances : List Instance}
    (hcount : expandCounts context maxCount resources = .ok counted)
    (h : expandForEachs context limit counted = .ok instances) :
    (instances.map coordinates).Nodup ∧
      ∀ i ∈ instances, ∃ r ∈ resources, i.labels = r.labels := by
  induction resources generalizing counted instances with
  | nil =>
    obtain rfl := Except.ok.inj hcount
    obtain rfl := Except.ok.inj h
    exact ⟨List.nodup_nil, by simp⟩
  | cons r rest ih =>
    rw [expandCounts] at hcount
    obtain ⟨own, hown, hcount⟩ := Except.bind_eq_ok.mp hcount
    obtain ⟨others, hothers, hcount⟩ := Except.bind_eq_ok.mp hcount
    obtain rfl := Except.ok.inj hcount
    obtain ⟨block, tail, hblock, htail, rfl⟩ :=
      (expandForEachs_partwise context limit).append.mp h
    rw [List.map_cons, List.nodup_cons] at hnodup
    obtain ⟨hfamily, hrest⟩ := ih hnodup.2 hothers htail
    have hr := expand_keys hcontext hown block hblock
    constructor
    · rw [List.map_append, List.nodup_append]
      refine ⟨?_, hfamily, ?_⟩
      · have hkeys : (block.map coordinates).map Prod.snd = block.map key := by
          rw [List.map_map]
          rfl
        apply List.Nodup.of_map Prod.snd
        rw [hkeys]
        exact hr.nodup
      · -- The other instances belong to resources with other labels.
        intro c hc c' hc' heq
        obtain ⟨i, hi, rfl⟩ := List.mem_map.mp hc
        obtain ⟨j, hj, rfl⟩ := List.mem_map.mp hc'
        obtain ⟨s, hs, hlabels⟩ := hrest j hj
        have hsame : i.labels = j.labels := congrArg Prod.fst heq
        rw [hr.labels i hi, hlabels] at hsame
        exact hnodup.1 (hsame ▸ List.mem_map_of_mem hs)
    · intro i hi
      rcases List.mem_append.mp hi with hfirst | hlater
      · exact ⟨r, List.mem_cons_self, hr.labels i hfirst⟩
      · obtain ⟨s, hs, hlabels⟩ := hrest i hlater
        exact ⟨s, List.mem_cons_of_mem _ hs, hlabels⟩

end Expansion

end Instance

/-! ## The gate -/

/-- Resources are left out by the gate, and keep their labels otherwise. -/
theorem Resource.resolveAll_labels (context : Context) (resources : List Resource) :
    Ensures (resolveAll context resources) fun resolved =>
      (resolved.map labels).Sublist (resources.map labels) := by
  induction resources with
  | nil => exact .ok .slnil
  | cons r rest ih =>
    rw [resolveAll]
    refine .after fun exists? => ?_
    split
    · intro all h
      obtain ⟨resolved, hresolved, h⟩ := Except.bind_eq_ok.mp h
      obtain ⟨others, hothers, h⟩ := Except.bind_eq_ok.mp h
      obtain rfl := Except.ok.inj h
      obtain ⟨attributes, -, hresolved⟩ := Except.bind_eq_ok.mp hresolved
      obtain rfl := Except.ok.inj hresolved
      exact (ih others hothers).cons_cons _
    · exact ih.mono fun resolved h => h.cons _

/-- The instances of a document differ in their labels or keys, and have labels of resources. -/
theorem Plan.instances_nodup {settings : Settings} {context : Context} {document : Document}
    (hcontext : context.Distinct) (hnodup : (document.resources.map Resource.labels).Nodup) :
    Ensures (instances settings context document) fun all =>
      (all.map Instance.coordinates).Nodup ∧
        ∀ i ∈ all, ∃ r ∈ document.resources, i.labels = r.labels := by
  refine .bind (Resource.resolveAll_labels context _) fun resolved hsublist => ?_
  intro all h
  obtain ⟨counted, hcounted, h⟩ := Except.bind_eq_ok.mp h
  obtain ⟨hall, hlabels⟩ :=
    Instance.expandAll_nodup hcontext (hnodup.sublist hsublist) hcounted h
  refine ⟨hall, fun i hi => ?_⟩
  obtain ⟨r, hr, heq⟩ := hlabels i hi
  obtain ⟨s, hs, hs'⟩ := List.mem_map.mp (hsublist.subset (List.mem_map_of_mem hr))
  exact ⟨s, hs, heq.trans hs'.symm⟩

end Deployment
