import Deployment.Proofs.Instance.Stages

/-! # Instances are copies

Expanding a resource copies it. Every instance has the type, the name and the provider of the
resource that it belongs to, and the copies differ in what they are bound to: their keys and
attributes. `Plan.instances_copies` says this of all instances of a document.
-/

namespace Deployment

namespace Instance

/-- The instance has the labels and the provider of another one. -/
structure IsCopy (template i : Instance) : Prop where
  type : i.type = template.type
  name : i.name = template.name
  provider : i.provider = template.provider

theorem IsCopy.refl (i : Instance) : IsCopy i i :=
  ⟨rfl, rfl, rfl⟩

theorem IsCopy.trans {i j k : Instance} (h : IsCopy i j) (h' : IsCopy j k) : IsCopy i k :=
  ⟨h'.type.trans h.type, h'.name.trans h.name, h'.provider.trans h.provider⟩

/-! ## Copies for keys -/

/-- A keyed copy has the key and everything that copies share. -/
theorem keyed_eq_ok {template i : Instance} {key : IndexKey} {b : Binding}
    (h : template.keyed key b = .ok i) : IsCopy template i ∧ i.key = some key := by
  obtain ⟨attributes, -, hi⟩ := Except.bind_eq_ok.mp h
  obtain rfl := Except.ok.inj hi
  exact ⟨⟨rfl, rfl, rfl⟩, rfl⟩

/-- Numbered copies are made one by one, for each number the copy with that number as its key and in
the place of `count.index`. -/
theorem numbered_eq_mapM (template : Instance) (ns : List Nat) :
    numbered template ns = ns.mapM fun n => template.keyed (.number n) (.count n) := by
  induction ns with
  | nil => rfl
  | cons n rest ih =>
    rw [numbered, List.mapM_cons, ih]
    rfl

/-- Copies for entries are made one by one, with key and value of the entry in the place of
`each.key` and `each.value`. -/
theorem ofEntries_eq_mapM (template : Instance) (entries : Entries Value) :
    ofEntries template entries =
      entries.mapM fun entry => template.keyed (.text entry.1) (.each entry.1 entry.2) := by
  induction entries with
  | nil => rfl
  | cons entry rest ih =>
    rw [ofEntries, List.mapM_cons, ih]
    rfl

/-- Copies for the keys of a list have these keys, in order. -/
theorem mapM_keyed_eq_ok {α : Type} {template : Instance} {k : α → IndexKey} {b : α → Binding}
    {xs : List α} {instances : List Instance}
    (h : xs.mapM (fun x => template.keyed (k x) (b x)) = .ok instances) :
    (∀ i ∈ instances, IsCopy template i) ∧ instances.map key = (xs.map k).map some := by
  have hall := Except.mapM_eq_ok.mp h
  clear h
  induction hall with
  | nil => exact ⟨by simp, rfl⟩
  | cons hi _ ih =>
    obtain ⟨hcopy, hkey⟩ := keyed_eq_ok hi
    obtain ⟨hrest, hkeys⟩ := ih
    refine ⟨List.forall_mem_cons.mpr ⟨hcopy, hrest⟩, ?_⟩
    rw [List.map_cons, hkey, hkeys]
    rfl

/-- Numbered copies have the numbers as their keys, in order. -/
theorem numbered_eq_ok {template : Instance} {ns : List Nat} {instances : List Instance}
    (h : numbered template ns = .ok instances) :
    (∀ i ∈ instances, IsCopy template i) ∧
      instances.map key = (ns.map IndexKey.number).map some := by
  rw [numbered_eq_mapM] at h
  exact mapM_keyed_eq_ok h

/-- Copies for entries have the keys of the entries as their keys, in order. -/
theorem ofEntries_eq_ok {template : Instance} {entries : Entries Value} {instances : List Instance}
    (h : ofEntries template entries = .ok instances) :
    (∀ i ∈ instances, IsCopy template i) ∧
      instances.map key = (entries.keys.map IndexKey.text).map some := by
  rw [ofEntries_eq_mapM] at h
  have hkeys : entries.keys.map IndexKey.text = entries.map fun entry => .text entry.1 :=
    List.map_map
  rw [hkeys]
  exact mapM_keyed_eq_ok h

/-! ## The expansions -/

variable {context : Context} {limit : Nat}

/-- By its count a resource is expanded to copies, also where it has none and is the only copy
itself. -/
theorem expandCount_copies (r : Resource) :
    Ensures (expandCount context limit r) fun instances =>
      ∀ i ∈ instances, IsCopy (ofResource r) i := by
  unfold expandCount
  split
  · refine .ok fun i hi => ?_
    obtain rfl := List.mem_singleton.mp hi
    exact .refl _
  · dsimp only
    split
    · exact .error _
    · refine .after fun v => ?_
      split
      · exact .error _
      · split
        · exact .error _
        · intro instances h i hi
          obtain ⟨htype, hname, hprovider⟩ := (numbered_eq_ok h).1 i hi
          exact ⟨htype, hname, hprovider⟩

/-- By its `for_each` an instance is expanded to copies. -/
theorem expandForEach_copies (i : Instance) :
    Ensures (expandForEach context limit i) fun instances => ∀ j ∈ instances, IsCopy i j := by
  unfold expandForEach
  split
  · refine .ok fun j hj => ?_
    obtain rfl := List.mem_singleton.mp hj
    exact .refl _
  · refine .after fun v => ?_
    split
    · exact .error _
    · split
      · exact .error _
      · intro instances h j hj
        obtain ⟨htype, hname, hprovider⟩ := (ofEntries_eq_ok h).1 j hj
        exact ⟨htype, hname, hprovider⟩

/-- An instance with a key is its own only copy. -/
theorem expansion_copies (i : Instance) :
    Ensures (expansion context limit i) fun instances => ∀ j ∈ instances, IsCopy i j := by
  unfold expansion
  split
  · exact expandForEach_copies i
  · exact .ok (by simpa using .refl i)

end Instance

/-! ## All stages -/

/-- The gate leaves everything but the attributes of a resource as it is. -/
theorem Resource.gated_copies (context : Context) (r : Resource) :
    Ensures (gated context r) fun block =>
      ∀ s ∈ block, Instance.IsCopy (.ofResource r) (.ofResource s) := by
  unfold gated
  refine .after fun exists? => ?_
  split
  · refine .bind (p := fun s => Instance.IsCopy (.ofResource r) (.ofResource s)) ?_ fun s hs => ?_
    · exact .after fun attributes => .ok ⟨rfl, rfl, rfl⟩
    · exact .ok (by simpa using hs)
  · exact .ok (by simp)

namespace Plan

open Instance

/-- All instances of a document are copies of its resources. -/
theorem instances_copies (settings : Settings) (context : Context) (document : Document) :
    Ensures (instances settings context document) fun all =>
      ∀ i ∈ all, ∃ r ∈ document.resources, IsCopy (ofResource r) i := by
  have hresolved : Ensures (Resource.resolveAll context document.resources) fun resolved =>
      ∀ s ∈ resolved, ∃ r ∈ document.resources, IsCopy (ofResource r) (ofResource s) := by
    refine (Resource.resolveAll_partwise context).forall_mem (p := (· ∈ document.resources)) ?_
      fun r hr => hr
    intro r hr
    rw [Resource.resolveAll_cons]
    refine .bind (Resource.gated_copies context r) fun block hblock => .ok fun s hs => ?_
    rw [List.append_nil] at hs
    exact ⟨r, hr, hblock s hs⟩
  refine .bind hresolved fun resolved hresolved => ?_
  -- Being a copy is handed on from stage to stage: first from the resource to what is numbered,
  -- then on to what is keyed.
  have hcounted : Ensures (expandCounts context settings.maxCount resolved) fun counted =>
      ∀ i ∈ counted, ∃ r ∈ document.resources, IsCopy (ofResource r) i := by
    refine (expandCounts_partwise context _).forall_mem (fun s hs => ?_) hresolved
    obtain ⟨r, hr, hcopy⟩ := hs
    rw [expandCounts]
    refine .bind (expandCount_copies s) fun block hblock => .ok fun i hi => ?_
    rw [List.append_nil] at hi
    exact ⟨r, hr, hcopy.trans (hblock i hi)⟩
  refine .bind hcounted fun counted hcounted => ?_
  refine (expandForEachs_partwise context _).forall_mem (fun i hi => ?_) hcounted
  obtain ⟨r, hr, hcopy⟩ := hi
  rw [expandForEachs_cons]
  refine .bind (expansion_copies i) fun block hblock => .ok fun j hj => ?_
  rw [List.append_nil] at hj
  exact ⟨r, hr, hcopy.trans (hblock j hj)⟩

end Plan

end Deployment
