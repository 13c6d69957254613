import Deployment.Proofs.Instance.Copies
import Deployment.Proofs.Plan.Parts

/-! # Levels of modules

A run goes from a document into the documents of its modules. A *level* is a document with what the
run has come to it with, and a level opens the levels of its modules: their variables are the inputs
of the module, their files are found from the place of the level, and the regions of the providers
around them are those in effect in the level. `Descent` is a way through levels, with the names of
the modules on it and the levels around its end.

A plan is taken apart one level at a time: every instance of the level and every level that it opens
has a plan, and nothing else is in the plan of the level. By induction along descents, the plan of a
run has what is planned at the end of every descent, with the names on the way (`Descent.planned`),
and by induction on the depth nothing else is planned (`descent_of_mem`).
-/

namespace Deployment.Plan

variable {settings : Settings}
  {descend? : Option (Document → Setting → Except Fault (List Planned))} {whole : List Planned}

/-- A document with what a run has come to it with. -/
structure Level where
  document : Document
  setting : Setting

namespace Level

/-- The level that a run starts with. -/
def root (settings : Settings) (document : Document) (place? : Option Place) : Level :=
  ⟨document, settings.vars, place?, []⟩

variable {l inner : Level} {context : Context} {regions : ProviderRegions} {m : Module}
  {r : Resource} {i : Instance} {p : Planned}

/-- The context of the level's document and the regions of providers that are in effect in it. -/
structure InEffect (l : Level) (context : Context) (regions : ProviderRegions) : Prop where
  resolved : l.document.resolveContext l.setting.vars = .ok context
  registered : registerProviders context l.setting.regions l.document.providers = (regions, none)

/-- A level opens the levels of the documents of its local modules. -/
inductive Opens (l : Level) (m : Module) : Level → Prop
  | intro {context : Context} {regions : ProviderRegions} {place : Place} {inputs : Entries Value}
      {loaded : Document} (heffect : l.InEffect context regions)
      (hplace : l.setting.place? = some place) (hm : m ∈ l.document.modules)
      (hlocal : m.isLocal = true)
      (hsingle : (m.inputs.has countAttribute || m.inputs.has forEachAttribute) = false)
      (hinputs : Draft.evaluateAttributes context (moduleMark ++ m.name) m.inputs = .ok inputs)
      (hload : loadDocument (place.descend m) = .ok loaded) :
      Opens l m ⟨loaded, inputs, some (place.descend m), regions⟩

/-- The level's document has the instance, of the given resource. -/
inductive Instantiates (settings : Settings) (l : Level) (r : Resource) (i : Instance) : Prop
  | intro {context : Context} {all : List Instance}
      (hcontext : l.document.resolveContext l.setting.vars = .ok context)
      (hr : r ∈ l.document.resources)
      (hall : instances settings context (l.document.only r) = .ok all) (hi : i ∈ all)

/-- The level's document has the instance, and it is planned so. -/
inductive Deploys (settings : Settings) (l : Level) (r : Resource) (i : Instance) (p : Planned) :
    Prop
  | intro {context : Context} {regions : ProviderRegions} (heffect : l.InEffect context regions)
      (hi : l.Instantiates settings r i) (hp : finalize context regions i = .ok p)

theorem InEffect.unique {context' : Context} {regions' : ProviderRegions}
    (h : l.InEffect context regions) (h' : l.InEffect context' regions') :
    context = context' ∧ regions = regions' := by
  obtain rfl := Except.ok.inj (h.resolved.symm.trans h'.resolved)
  exact ⟨rfl, (Prod.mk.inj (h.registered.symm.trans h'.registered)).1⟩

/-- A module opens one level at most. -/
theorem Opens.unique {inner' : Level} (h : l.Opens m inner) (h' : l.Opens m inner') :
    inner = inner' := by
  obtain ⟨heffect, hplace, -, -, -, hinputs, hload⟩ := h
  obtain ⟨heffect', hplace', -, -, -, hinputs', hload'⟩ := h'
  obtain ⟨rfl, rfl⟩ := heffect.unique heffect'
  obtain rfl := Option.some.inj (hplace.symm.trans hplace')
  obtain rfl := Except.ok.inj (hinputs.symm.trans hinputs')
  obtain rfl := Except.ok.inj (hload.symm.trans hload')
  rfl

/-- An instance of a resource is a copy of it. -/
theorem Instantiates.copy (h : l.Instantiates settings r i) :
    Instance.IsCopy (.ofResource r) i := by
  obtain ⟨-, -, hall, hi⟩ := h
  obtain ⟨s, hs, hcopy⟩ := instances_copies settings _ _ _ hall i hi
  obtain rfl := List.mem_singleton.mp hs
  exact hcopy

/-- The instances of a document are those of its resources. -/
theorem mem_instances_iff (hcontext : l.document.resolveContext l.setting.vars = .ok context)
    {all : List Instance} (hall : instances settings context l.document = .ok all) :
    i ∈ all ↔ ∃ r, l.Instantiates settings r i := by
  rw [(instances_partwise settings context l.document).mem_iff hall]
  constructor
  · rintro ⟨r, hr, part, hpart, hi⟩
    exact ⟨r, hcontext, hr, hpart, hi⟩
  · rintro ⟨r, hcontext', hr, hpart, hi⟩
    obtain rfl := Except.ok.inj (hcontext.symm.trans hcontext')
    exact ⟨r, hr, _, hpart, hi⟩

/-! ## One level -/

/-- A module of a level is planned by planning the level that it opens. -/
theorem ofModule_eq_ok_iff_opens (heffect : l.InEffect context regions)
    (hm : m ∈ l.document.modules) :
    ofModule settings descend? context l.setting.place? regions m = .ok whole ↔
      ∃ inner descend part, l.Opens m inner ∧ descend? = some descend ∧
        descend inner.document inner.setting = .ok part ∧ whole = part.map (·.within m.name) := by
  rw [ofModule_eq_ok]
  constructor
  · rintro ⟨hlocal, hsingle, descend, place, inputs, loaded, part, hdescend, hplace, hinputs, hload,
      hpart, rfl⟩
    exact ⟨_, descend, part, .intro heffect hplace hm hlocal hsingle hinputs hload, hdescend, hpart,
      rfl⟩
  · rintro ⟨inner, descend, part, hopens, hdescend, hpart, rfl⟩
    obtain ⟨heffect', hplace, -, hlocal, hsingle, hinputs, hload⟩ := hopens
    obtain ⟨rfl, rfl⟩ := heffect.unique heffect'
    exact ⟨hlocal, hsingle, descend, _, _, _, part, hdescend, hplace, hinputs, hload, hpart, rfl⟩

variable (h : ofDocumentWith settings descend? l.document l.setting = .ok whole)
include h

/-- Every instance of a level has its plan in that of the level. -/
theorem Instantiates.planned (hi : l.Instantiates settings r i) :
    ∃ p ∈ whole, l.Deploys settings r i p := by
  obtain ⟨context, all, regions, own, nested, hcontext, hall, hregions, hown, -, rfl⟩ :=
    ofDocumentWith_eq_ok.mp h
  have hmem : i ∈ all := (mem_instances_iff hcontext hall).mpr ⟨r, hi⟩
  obtain ⟨p, hp⟩ := Except.exists_of_mapM_eq_ok hown hmem
  refine ⟨p, ?_, .intro ⟨hcontext, hregions⟩ hi hp⟩
  exact List.mem_append_left _ ((Except.mem_of_mapM_eq_ok hown p).mpr ⟨i, hmem, hp⟩)

/-- Every level that a level opens has its plan in that of the level, behind the module's name. -/
theorem Opens.planned (hopens : l.Opens m inner) :
    ∃ descend part, descend? = some descend ∧ descend inner.document inner.setting = .ok part ∧
      ∀ q ∈ part, q.within m.name ∈ whole := by
  obtain ⟨context, all, regions, own, nested, hcontext, -, hregions, -, hnested, rfl⟩ :=
    ofDocumentWith_eq_ok.mp h
  have heffect : l.InEffect context regions := ⟨hcontext, hregions⟩
  have hm : m ∈ l.document.modules := by
    obtain ⟨-, -, hm, -⟩ := hopens
    exact hm
  obtain ⟨block, hblock⟩ := Except.exists_of_mapM_eq_ok hnested hm
  obtain ⟨inner', descend, part, hopens', hdescend, hpart, rfl⟩ :=
    (ofModule_eq_ok_iff_opens heffect hm).mp hblock
  obtain rfl := hopens.unique hopens'
  refine ⟨descend, part, hdescend, hpart, fun q hq => ?_⟩
  have hmem := (Except.mem_of_mapM_eq_ok hnested _).mpr ⟨m, hm, hblock⟩
  exact List.mem_append_right _ (List.mem_flatten_of_mem hmem (List.mem_map_of_mem hq))

/-- Nothing else is planned in a level. -/
theorem of_mem_planned (hp : p ∈ whole) :
    (∃ r i, l.Deploys settings r i p) ∨ ∃ m inner descend part q, l.Opens m inner ∧
      descend? = some descend ∧ descend inner.document inner.setting = .ok part ∧ q ∈ part ∧
      p = q.within m.name := by
  obtain ⟨context, all, regions, own, nested, hcontext, hall, hregions, hown, hnested, rfl⟩ :=
    ofDocumentWith_eq_ok.mp h
  have heffect : l.InEffect context regions := ⟨hcontext, hregions⟩
  rcases List.mem_append.mp hp with hown' | hnested'
  · obtain ⟨i, hi, hp⟩ := (Except.mem_of_mapM_eq_ok hown p).mp hown'
    obtain ⟨r, hr⟩ := (mem_instances_iff hcontext hall).mp hi
    exact .inl ⟨r, i, heffect, hr, hp⟩
  · obtain ⟨block, hblock, hp⟩ := List.mem_flatten.mp hnested'
    obtain ⟨m, hm, hblock⟩ := (Except.mem_of_mapM_eq_ok hnested block).mp hblock
    obtain ⟨inner, descend, part, hopens, hdescend, hpart, rfl⟩ :=
      (ofModule_eq_ok_iff_opens heffect hm).mp hblock
    obtain ⟨q, hq, rfl⟩ := List.mem_map.mp hp
    exact .inr ⟨m, inner, descend, part, q, hopens, hdescend, hpart, hq, rfl⟩

/-- A level in which modules may not be planned has none. -/
theorem modules_eq_nil (hdescend : descend? = none) : l.document.modules = [] := by
  obtain ⟨context, all, regions, own, nested, hcontext, -, hregions, -, hnested, -⟩ :=
    ofDocumentWith_eq_ok.mp h
  rw [List.eq_nil_iff_forall_not_mem]
  intro m hm
  obtain ⟨block, hblock⟩ := Except.exists_of_mapM_eq_ok hnested hm
  obtain ⟨-, -, descend, place, -, -, -, hsome, -⟩ := ofModule_eq_ok.mp hblock
  rw [hdescend] at hsome
  cases hsome

end Level

/-! ## Descents -/

open Level

/-- A way from a level through levels that are opened: the names of the modules, the levels that are
left behind, the last one first, and the level at the end. -/
inductive Descent : Level → List String → List Level → Level → Prop
  | here (l : Level) : Descent l [] [] l
  | deeper {l inner d : Level} {m : Module} {names : List String} {around : List Level}
      (hopens : l.Opens m inner) (h : Descent inner names around d) :
      Descent l (m.name :: names) (around ++ [l]) d

variable {l d : Level} {names : List String} {around : List Level}

/-- A run that succeeds has planned the level at the end of every descent. The depth that is left
there is less by the number of modules on the way. -/
theorem Descent.planned (hdescent : Descent l names around d) {depth : Nat}
    (h : ofDocumentAt settings depth l.document l.setting = .ok whole) :
    ∃ left part, depth = names.length + left ∧
      ofDocumentAt settings left d.document d.setting = .ok part ∧
      ∀ q ∈ part, names.foldr Planned.within q ∈ whole := by
  induction hdescent generalizing depth whole with
  | here l => exact ⟨depth, whole, (Nat.zero_add _).symm, h, fun q hq => hq⟩
  | deeper hopens _ ih =>
    rw [ofDocumentAt_eq] at h
    obtain ⟨descend, part, hdescend, hpart, hwithin⟩ := hopens.planned h
    cases depth with
    | zero => cases hdescend
    | succ depth =>
      obtain rfl := Option.some.inj hdescend
      obtain ⟨left, rest, rfl, hrest, hmem⟩ := ih hpart
      exact ⟨left, rest, (Nat.succ_add _ _).symm, hrest, fun q hq => hwithin _ (hmem q hq)⟩

/-- Whatever a run plans is planned at the end of a descent. -/
theorem descent_of_mem {depth : Nat}
    (h : ofDocumentAt settings depth l.document l.setting = .ok whole) {p : Planned}
    (hp : p ∈ whole) :
    ∃ names around d r i q, Descent l names around d ∧ d.Deploys settings r i q ∧
      p = names.foldr Planned.within q := by
  induction depth generalizing l whole p with
  | zero =>
    rw [ofDocumentAt_eq] at h
    rcases of_mem_planned h hp with ⟨r, i, hown⟩ | ⟨_, _, _, _, _, _, hdescend, _⟩
    · exact ⟨[], [], l, r, i, p, .here l, hown, rfl⟩
    · cases hdescend
  | succ depth ih =>
    rw [ofDocumentAt_eq] at h
    rcases of_mem_planned h hp with
      ⟨r, i, hown⟩ | ⟨m, inner, descend, part, q, hopens, hdescend, hpart, hq, rfl⟩
    · exact ⟨[], [], l, r, i, p, .here l, hown, rfl⟩
    · obtain rfl := Option.some.inj hdescend
      obtain ⟨names, around, d, r, i, q', hdescent, hown, rfl⟩ := ih hpart hq
      exact ⟨m.name :: names, around ++ [l], d, r, i, q', .deeper hopens hdescent, hown, rfl⟩

/-! ## Identifiers -/

@[simp] theorem foldr_within_attributes (names : List String) (p : Planned) :
    (names.foldr Planned.within p).attributes = p.attributes := by
  induction names with
  | nil => rfl
  | cons name rest ih => exact ih

@[simp] theorem foldr_within_region (names : List String) (p : Planned) :
    (names.foldr Planned.within p).region = p.region := by
  induction names with
  | nil => rfl
  | cons name rest ih => exact ih

/-- An instance of a resource at the end of a descent has the names on the way in front. -/
theorem Level.Deploys.comesFrom {r : Resource} {i : Instance} {q : Planned}
    (h : d.Deploys settings r i q) (names : List String) :
    (names.foldr Planned.within q).ComesFrom ⟨names, r.type, r.name, i.key⟩ := by
  induction names with
  | nil =>
    obtain ⟨-, hi, hq⟩ := h
    have hcopy := hi.copy
    have horigin := finalize_comesFrom hq
    rwa [hcopy.type, hcopy.name] at horigin
  | cons name rest ih => exact ih.within name

end Deployment.Plan
