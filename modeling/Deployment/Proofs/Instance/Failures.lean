import Deployment.Proofs.Document.NestedBlocks
import Deployment.Proofs.Draft.Readable
import Deployment.Proofs.Instance.Copies

/-! # Why expansions fail

Every copy that an expansion makes has its iteration symbols bound. The attributes that are bound
have been resolved before, so they are readable, and making copies cannot fail. What is left is the
repetition itself: a `count` or `for_each` that has no value or the wrong kind of value, both of
them on one resource, or more instances than the limit allows. `CountFault` and `ForEachFault` list
these reasons, and the expansions fail exactly for them.

The attributes `count` and `for_each` are not resolved, so they may be unreadable. They are gone
before anything is bound. This needs every name to be there once, as in all documents.
-/

namespace Deployment

/-! ## Resolved attributes -/

namespace Resource

/-- All attributes are readable but those that repeat a resource. -/
def Bindable (attributes : Entries Draft) : Prop :=
  ∀ name d, (name, d) ∈ attributes → name ≠ countAttribute → name ≠ forEachAttribute → d.Readable

/-- Attributes as the gate returns them: every name is there once, and what is not left to the
expansions can be bound. -/
structure Resolved (attributes : Entries Draft) : Prop where
  nodup : attributes.keys.Nodup
  bindable : Bindable attributes

/-- One more attribute is bindable if it is readable or repeats the resource. -/
theorem Bindable.cons {attributes : Entries Draft} (h : Bindable attributes) {name : String}
    {d : Draft} (hd : name ≠ countAttribute → name ≠ forEachAttribute → d.Readable) :
    Bindable ((name, d) :: attributes) := by
  intro name' d' hmem
  rcases List.mem_cons.mp hmem with heq | hrest
  · obtain ⟨rfl, rfl⟩ := Prod.mk.inj heq
    exact hd
  · exact h name' d' hrest

/-- Whatever of the attributes is bound without those that repeat the resource, binding succeeds. -/
theorem Bindable.bindAttributes {attributes bound : Entries Draft} (h : Bindable attributes)
    (hsub : bound ⊆ attributes) (hcount : countAttribute ∉ bound.keys)
    (hforEach : forEachAttribute ∉ bound.keys) (b : Binding) (owner : String) :
    ∃ result, Draft.bindAttributes b owner bound = .ok result := by
  refine Draft.bindAttributes_succeeds (fun name d hmem => ?_) b owner
  have hkey : name ∈ bound.keys := List.mem_map.mpr ⟨(name, d), hmem, rfl⟩
  refine h name d (hsub hmem) ?_ ?_
  · rintro rfl
    exact hcount hkey
  · rintro rfl
    exact hforEach hkey

/-- What the gate resolves is readable. It leaves out only the attributes that repeat the resource.
-/
theorem resolveAttributes_bindable (context : Context) (address : String)
    (attributes : Entries Draft) :
    Ensures (resolveAttributes context address attributes) Bindable := by
  induction attributes with
  | nil => exact .ok fun _ _ hmem => absurd hmem List.not_mem_nil
  | cons entry rest ih =>
    obtain ⟨name, d⟩ := entry
    rw [resolveAttributes]
    split
    · rename_i hrepeats
      show Ensures (do
        let others ← resolveAttributes context address rest
        .ok ((name, d) :: others)) Bindable
      refine .bind ih fun others hothers => .ok (hothers.cons ?_)
      intro hcount hforEach
      exact (hrepeats.elim hcount hforEach).elim
    · refine .bind (Draft.resolve_readable d _) fun r hr => .bind ih fun others hothers => .ok ?_
      exact hothers.cons fun _ _ => hr

/-- Resolving attributes keeps their names, in order. -/
theorem resolveAttributes_keys (context : Context) (address : String)
    (attributes : Entries Draft) :
    Ensures (resolveAttributes context address attributes) fun resolved =>
      resolved.keys = attributes.keys := by
  induction attributes with
  | nil => exact .ok rfl
  | cons entry rest ih =>
    rw [resolveAttributes]
    split
    all_goals
      refine .after fun d => .bind ih fun others hothers => .ok ?_
      exact congrArg (entry.1 :: ·) hothers

/-- What the gate lets through of a resource is resolved. -/
theorem gated_resolved (context : Context) {r : Resource} (h : r.attributes.keys.Nodup) :
    Ensures (gated context r) fun block => ∀ s ∈ block, Resolved s.attributes := by
  have hattributes : Ensures (resolveAttributes context r.address r.attributes) Resolved := by
    intro resolved hresolved
    refine ⟨?_, resolveAttributes_bindable _ _ _ resolved hresolved⟩
    rw [resolveAttributes_keys _ _ _ resolved hresolved]
    exact h
  refine .after fun exists? => ?_
  split
  · refine .bind (hattributes.bind (q := fun s => Resolved s.attributes) fun _ h => .ok h) ?_
    exact fun s hs => .ok (by simpa using hs)
  · exact .ok (by simp)

/-- What the gate lets through of all resources is resolved. -/
theorem resolveAll_resolved (context : Context) {resources : List Resource}
    (h : ∀ r ∈ resources, r.attributes.keys.Nodup) :
    Ensures (resolveAll context resources) fun resolved =>
      ∀ r ∈ resolved, Resolved r.attributes := by
  refine (resolveAll_partwise context).forall_mem (fun r hr => ?_) h
  rw [resolveAll_cons]
  refine .bind (gated_resolved context hr) fun block hblock => .ok ?_
  rw [List.append_nil]
  exact hblock

end Resource

namespace Instance

open Resource (Resolved)

variable {context : Context} {limit : Nat}

/-! ## Copies of readable instances -/

section Copies

/-- A copy of attributes that can be bound is always made. -/
theorem keyed_succeeds (template : Instance) {attributes : Entries Draft}
    (h : Resource.Bindable attributes) (hsub : template.attributes ⊆ attributes)
    (hcount : countAttribute ∉ template.attributes.keys)
    (hforEach : forEachAttribute ∉ template.attributes.keys) (key : IndexKey) (b : Binding) :
    ∃ i, template.keyed key b = .ok i :=
  Except.bind_succeeds (h.bindAttributes hsub hcount hforEach b _) fun _ => ⟨_, rfl⟩

/-- If every single copy can be made, numbered copies can. -/
theorem numbered_succeeds {template : Instance}
    (h : ∀ key b, ∃ i, template.keyed key b = .ok i) (ns : List Nat) :
    ∃ instances, numbered template ns = .ok instances := by
  rw [numbered_eq_mapM]
  exact Except.mapM_succeeds fun n _ => h _ _

/-- If every single copy can be made, copies for entries can. -/
theorem ofEntries_succeeds {template : Instance}
    (h : ∀ key b, ∃ i, template.keyed key b = .ok i)
    (entries : Entries Value) : ∃ instances, ofEntries template entries = .ok instances := by
  rw [ofEntries_eq_mapM]
  exact Except.mapM_succeeds fun entry _ => h _ _

end Copies

/-! ## Counts -/

section Counts

variable {r : Resource} {f : Failure}

/-- Why a resource cannot be expanded by its count. -/
inductive CountFault (context : Context) (limit : Nat) (r : Resource) : Failure → Prop
  | exclusive {count : Draft} (hcount : r.attributes.get? countAttribute = some count)
      (hforEach : r.attributes.has forEachAttribute = true) :
      CountFault context limit r
        (Resource.exclusive count (Draft.entryLocation r.address countAttribute))
  | unevaluated {count : Draft} {f : Failure}
      (hcount : r.attributes.get? countAttribute = some count)
      (hforEach : r.attributes.has forEachAttribute = false)
      (hv : count.evaluate context (Draft.entryLocation r.address countAttribute) = .error f) :
      CountFault context limit r f
  | notWhole {count : Draft} {v : Value}
      (hcount : r.attributes.get? countAttribute = some count)
      (hforEach : r.attributes.has forEachAttribute = false)
      (hv : count.evaluate context (Draft.entryLocation r.address countAttribute) = .ok v)
      (hwhole : wholeCount? v = none) :
      CountFault context limit r (.invalid count.render (.countNotWhole (describe v))
        (Draft.entryLocation r.address countAttribute))
  | tooMany {count : Draft} {v : Value} {n : Nat}
      (hcount : r.attributes.get? countAttribute = some count)
      (hforEach : r.attributes.has forEachAttribute = false)
      (hv : count.evaluate context (Draft.entryLocation r.address countAttribute) = .ok v)
      (hwhole : wholeCount? v = some n) (hlimit : limit < n) :
      CountFault context limit r (.limitExceeded r.address n limit)

/-- A resolved resource without a `for_each` is always copied: its count is removed first, which is
what may not be readable. -/
theorem numbered_remove_succeeds (h : Resolved r.attributes)
    (hforEach : r.attributes.has forEachAttribute = false) (ns : List Nat) :
    ∃ instances, numbered
      (ofResource { r with attributes := r.attributes.remove countAttribute }) ns =
        .ok instances := by
  have hnone := Entries.get?_eq_none_iff.mp (Entries.has_eq_false_iff.mp hforEach)
  exact numbered_succeeds (keyed_succeeds _ h.bindable (Entries.remove_subset _ _)
    (Entries.not_mem_keys_remove h.nodup)
    fun hmem => hnone (Entries.keys_remove_subset _ _ hmem)) ns

/-- A resolved resource cannot be expanded by its count exactly for one of the reasons listed. -/
theorem expandCount_eq_error_iff (h : Resolved r.attributes) :
    expandCount context limit r = .error f ↔ CountFault context limit r f := by
  constructor
  · intro hf
    unfold expandCount at hf
    split at hf
    · cases hf
    rename_i count hcount
    dsimp only at hf
    split at hf
    · cases hf
      exact .exclusive hcount ‹_›
    rename_i hforEach
    rw [Bool.not_eq_true] at hforEach
    obtain hv | ⟨v, hv, hf⟩ := Except.bind_eq_error.mp hf
    · exact .unevaluated hcount hforEach hv
    split at hf
    · cases hf
      exact .notWhole hcount hforEach hv ‹_›
    rename_i n hwhole
    split at hf
    · cases hf
      exact .tooMany hcount hforEach hv hwhole ‹_›
    -- All checks are passed, and making the copies does not fail.
    · obtain ⟨instances, hok⟩ := numbered_remove_succeeds h hforEach (List.range n)
      rw [hok] at hf
      cases hf
  · intro hfault
    unfold expandCount
    cases hfault with
    | exclusive hcount hforEach => simp [hcount, hforEach]
    | unevaluated hcount hforEach hv => simp [hcount, hforEach, hv, bind, Except.bind]
    | notWhole hcount hforEach hv hwhole =>
      simp [hcount, hforEach, hv, hwhole, bind, Except.bind]
    | tooMany hcount hforEach hv hwhole hlimit =>
      simp [hcount, hforEach, hv, hwhole, hlimit, bind, Except.bind]

/-- An instance that no count has numbered is the only one of its resource, which has none. -/
theorem expandCount_unnumbered (r : Resource) :
    Ensures (expandCount context limit r) fun instances => ∀ i ∈ instances, i.key = none →
      i.attributes = r.attributes ∧ countAttribute ∉ i.attributes.keys := by
  unfold expandCount
  split
  · refine .ok fun i hi _ => ?_
    obtain rfl := List.mem_singleton.mp hi
    exact ⟨rfl, Entries.get?_eq_none_iff.mp ‹_›⟩
  · dsimp only
    split
    · exact .error _
    · refine .after fun v => ?_
      split
      · exact .error _
      · split
        · exact .error _
        · intro instances h i hi hkey
          have hmem : i.key ∈ instances.map key := List.mem_map.mpr ⟨i, hi, rfl⟩
          rw [(numbered_eq_ok h).2, hkey] at hmem
          simp at hmem

end Counts

/-! ## Keys -/

section Keys

variable {i : Instance} {f : Failure}

/-- Why an instance cannot be expanded by its `for_each`. -/
inductive ForEachFault (context : Context) (limit : Nat) (i : Instance) : Failure → Prop
  | unevaluated {forEach : Draft} {f : Failure}
      (hforEach : i.attributes.get? forEachAttribute = some forEach)
      (hv : forEach.evaluate context (Draft.entryLocation i.address forEachAttribute) = .error f) :
      ForEachFault context limit i f
  | notIterable {forEach : Draft} {v : Value} {reason : Reason}
      (hforEach : i.attributes.get? forEachAttribute = some forEach)
      (hv : forEach.evaluate context (Draft.entryLocation i.address forEachAttribute) = .ok v)
      (hiterated : iterated v = .error reason) :
      ForEachFault context limit i
        (.invalid forEach.render reason (Draft.entryLocation i.address forEachAttribute))
  | tooMany {forEach : Draft} {v : Value} {entries : Entries Value}
      (hforEach : i.attributes.get? forEachAttribute = some forEach)
      (hv : forEach.evaluate context (Draft.entryLocation i.address forEachAttribute) = .ok v)
      (hiterated : iterated v = .ok entries) (hlimit : limit < entries.length) :
      ForEachFault context limit i (.limitExceeded i.address entries.length limit)

/-- A resolved instance without a count is always copied, once its `for_each` is removed. -/
theorem ofEntries_remove_succeeds (h : Resolved i.attributes)
    (hcount : countAttribute ∉ i.attributes.keys) (entries : Entries Value) :
    ∃ instances, ofEntries { i with attributes := i.attributes.remove forEachAttribute } entries =
      .ok instances :=
  ofEntries_succeeds (keyed_succeeds _ h.bindable (Entries.remove_subset _ _)
    (fun hmem => hcount (Entries.keys_remove_subset _ _ hmem))
    (Entries.not_mem_keys_remove h.nodup)) entries

/-- A resolved instance cannot be expanded by its `for_each` exactly for one of the reasons listed.
-/
theorem expandForEach_eq_error_iff (h : Resolved i.attributes)
    (hcount : countAttribute ∉ i.attributes.keys) :
    expandForEach context limit i = .error f ↔ ForEachFault context limit i f := by
  constructor
  · intro hf
    unfold expandForEach at hf
    split at hf
    · cases hf
    rename_i forEach hforEach
    obtain hv | ⟨v, hv, hf⟩ := Except.bind_eq_error.mp hf
    · exact .unevaluated hforEach hv
    split at hf
    · cases hf
      exact .notIterable hforEach hv ‹_›
    rename_i entries hiterated
    split at hf
    · cases hf
      exact .tooMany hforEach hv hiterated ‹_›
    -- All checks are passed, and making the copies does not fail.
    · obtain ⟨instances, hok⟩ := ofEntries_remove_succeeds h hcount entries
      rw [hok] at hf
      cases hf
  · intro hfault
    unfold expandForEach
    cases hfault with
    | unevaluated hforEach hv => simp [hforEach, hv, bind, Except.bind]
    | notIterable hforEach hv hiterated =>
      simp [hforEach, hv, hiterated, bind, Except.bind]
    | tooMany hforEach hv hiterated hlimit =>
      simp [hforEach, hv, hiterated, hlimit, bind, Except.bind]

end Keys

/-! ## All resources -/

/-- The instances without a key have everything that their resource has, but no count. -/
theorem expandCounts_concludes (context : Context) (limit : Nat) {resources : List Resource}
    (h : ∀ r ∈ resources, Resolved r.attributes) :
    Concludes (expandCounts context limit resources)
      (fun counted => ∀ i ∈ counted, i.key = none →
        Resolved i.attributes ∧ countAttribute ∉ i.attributes.keys)
      fun f => ∃ r ∈ resources, CountFault context limit r f := by
  refine Partwise.concludes_of_cons (expandCounts context limit) (expandCount context limit) rfl
    (fun r rest => by rw [expandCounts]) fun r hr => ?_
  constructor
  · refine (expandCount_unnumbered r).mono fun instances hinstances i hi hkey => ?_
    obtain ⟨hattributes, hcount⟩ := hinstances i hi hkey
    exact ⟨hattributes ▸ h r hr, hcount⟩
  · intro f hf
    exact ⟨r, hr, (expandCount_eq_error_iff (h r hr)).mp hf⟩

/-- If instances cannot be keyed, it is because of one of them that has no key yet. -/
theorem expandForEachs_fails (limit : Nat) {counted : List Instance}
    (h : ∀ i ∈ counted, i.key = none →
      Resolved i.attributes ∧ countAttribute ∉ i.attributes.keys) {f : Failure}
    (hf : expandForEachs context limit counted = .error f) :
    ∃ i ∈ counted, i.key = none ∧ ForEachFault context limit i f := by
  have hsingle : ∀ i ∈ counted, Concludes (expansion context limit i) (fun js => ∀ j ∈ js, True)
      fun f => ∃ i ∈ counted, i.key = none ∧ ForEachFault context limit i f := by
    refine fun i hi => ⟨fun _ _ _ _ => trivial, fun f hf => ?_⟩
    rw [expansion] at hf
    split at hf
    · rename_i hnone
      have hkey : i.key = none := Option.isNone_iff_eq_none.mp hnone
      obtain ⟨hresolved, hcount⟩ := h i hi hkey
      exact ⟨i, hi, hkey, (expandForEach_eq_error_iff hresolved hcount).mp hf⟩
    · cases hf
  exact (Partwise.concludes_of_cons (expandForEachs context limit) (expansion context limit) rfl
    expandForEachs_cons hsingle).fails f hf

end Instance

/-! ## Runs -/

namespace Plan

open Instance

/-- Why resolved resources have no instances: the count of a resource, or what an instance that no
count has numbered is iterated over. -/
inductive ExpansionFault (settings : Settings) (context : Context) (resolved : List Resource) :
    Failure → Prop
  | count {r : Resource} {f : Failure} (hr : r ∈ resolved)
      (h : CountFault context settings.maxCount r f) : ExpansionFault settings context resolved f
  | forEach {counted : List Instance} {i : Instance} {f : Failure}
      (hcounted : expandCounts context settings.maxCount resolved = .ok counted)
      (hi : i ∈ counted) (hkey : i.key = none) (h : ForEachFault context settings.maxForEach i f) :
      ExpansionFault settings context resolved f

/-- If both expansions of resolved resources fail one after the other, there is a reason for it in
one of them. -/
theorem expansions_fail (settings : Settings) {context : Context} {resolved : List Resource}
    (h : ∀ r ∈ resolved, Resource.Resolved r.attributes) {f : Failure}
    (hf : (expandCounts context settings.maxCount resolved >>=
      expandForEachs context settings.maxForEach) = .error f) :
    ExpansionFault settings context resolved f := by
  have hcounts := expandCounts_concludes context settings.maxCount h
  obtain hf | ⟨counted, hcounted, hf⟩ := Except.bind_eq_error.mp hf
  · obtain ⟨r, hr, hfault⟩ := hcounts.fails f hf
    exact .count hr hfault
  · obtain ⟨i, hi, hkey, hfault⟩ := expandForEachs_fails _ (hcounts.ensures _ hcounted) hf
    exact .forEach hcounted hi hkey hfault

/-- In whatever is left of the attributes of a resolved resource without `count` and `for_each`,
binding succeeds for every instance. So the expansions of resolved resources fail only for their
counts, for what they are iterated over, or for a limit, and a run on files that comes as far as the
expansions has no other failures there. -/
theorem binding_succeeds (settings : Settings) (context : Context) :
    (∀ r resolved, Resource.resolveBranches context r = .ok resolved →
      ∀ attributes : Entries Draft, attributes ⊆ resolved.attributes →
        countAttribute ∉ attributes.keys → forEachAttribute ∉ attributes.keys →
        ∀ b owner, ∃ bound, Draft.bindAttributes b owner attributes = .ok bound) ∧
    (∀ resources resolved, (∀ r ∈ resources, r.attributes.keys.Nodup) →
      Resource.resolveAll context resources = .ok resolved →
      ∀ f, (expandCounts context settings.maxCount resolved >>=
          expandForEachs context settings.maxForEach) = .error f →
        ExpansionFault settings context resolved f) ∧
    ∀ files document, Document.ofFiles files = .ok document →
      ∀ f, instances settings context document = .error f →
        Resource.resolveAll context document.resources = .error f ∨
          ∃ resolved, Resource.resolveAll context document.resources = .ok resolved ∧
            ExpansionFault settings context resolved f := by
  refine ⟨fun r resolved hresolved attributes hsub hcount hforEach b owner => ?_,
    fun resources resolved hnodup hresolved f hf => ?_, fun files document hdocument f hf => ?_⟩
  · obtain ⟨all, hall, hresolved⟩ := Except.bind_eq_ok.mp hresolved
    obtain rfl := Except.ok.inj hresolved
    have hbindable := Resource.resolveAttributes_bindable context r.address r.attributes all hall
    exact hbindable.bindAttributes hsub hcount hforEach b owner
  · exact expansions_fail settings (Resource.resolveAll_resolved context hnodup resolved hresolved)
      hf
  · have hnodup := Document.nodup_attributes_of_ofFiles hdocument
    obtain hresolve | ⟨resolved, hresolved, hf⟩ := Except.bind_eq_error.mp hf
    · exact .inl hresolve
    · exact .inr ⟨resolved, hresolved, expansions_fail settings
        (Resource.resolveAll_resolved context hnodup resolved hresolved) hf⟩

/-- A counted resource with kept and replaced texts and keys in one map. -/
def fleet : SourceFile :=
  ⟨none, [
    .block "resource" ["aws_instance", "web"] [
      .attribute "count" (.bool true),
      .attribute "tags" (.object [
        (.traversal (.variable "count") [.attribute "index"],
          .array [.traversal (.variable "var") [.attribute "owner"], .null]),
        (.traversal (.variable "var") [.attribute "owner"],
          .traversal (.variable "count") [.attribute "index"])])]]⟩

/-- The map has a key that only its instances know, next to text that looks like one and is none. A
limit of zero refuses the single instance. -/
theorem fleet_binding_succeeds :
    let settings := Settings.ofLimits 0 0
    let context : Context := ⟨[("owner", .text "$\x7bteam\x7d")], []⟩
    ∃ document r resolved, Document.ofFiles [fleet] = .ok document ∧ document.resources = [r] ∧
      Resource.resolveAll context [r] = .ok [resolved] ∧
      (∀ b owner, ∃ bound, Draft.bindAttributes b owner
        (resolved.attributes.remove countAttribute) = .ok bound) ∧
      ∃ f, instances settings context document = .error f ∧
        ExpansionFault settings context [resolved] f ∧
        (Resource.resolveAll context [r] = .error f ∨
          ∃ resolved, Resource.resolveAll context [r] = .ok resolved ∧
            ExpansionFault settings context resolved f) := by
  intro settings context
  let r : Resource := ⟨"aws_instance", "web", none, [("count", .bool true),
    ("tags", .map [
      ("$\x7bcount.index\x7d", .list [.text "$\x7bvar.owner\x7d", .null]),
      ("$\x7bvar.owner\x7d", .text "$\x7bcount.index\x7d")])]⟩
  let resolved : Resource := ⟨"aws_instance", "web", none, [("count", .bool true),
    ("tags", .map [
      ("$\x7bcount.index\x7d", .list [.text "$$\x7bteam\x7d", .null]),
      ("$$\x7bteam\x7d", .text "$\x7bcount.index\x7d")])]⟩
  have hdocument : Document.ofFiles [fleet] = .ok ⟨[r], [], [], [], []⟩ := rfl
  have hbranches : Resource.resolveBranches context r = .ok resolved := by cbv
  have hresolved : Resource.resolveAll context [r] = .ok [resolved] := by cbv
  have hexpansions : (expandCounts context settings.maxCount [resolved] >>=
      expandForEachs context settings.maxForEach) =
        .error (.limitExceeded "aws_instance.web" 1 0) := by
    cbv
  have hinstances : instances settings context ⟨[r], [], [], [], []⟩ =
      .error (.limitExceeded "aws_instance.web" 1 0) := by
    rw [instances, hresolved]
    exact hexpansions
  obtain ⟨hbind, hfaults, hruns⟩ := binding_succeeds settings context
  refine ⟨_, r, resolved, hdocument, rfl, hresolved, ?_, _, hinstances, ?_,
    hruns _ _ hdocument _ hinstances⟩
  · exact hbind r resolved hbranches _ (Entries.remove_subset _ _) (by decide) (by decide)
  · exact hfaults [r] [resolved] (by decide) hresolved _ hexpansions

end Plan

end Deployment
