import Deployment.Proofs.Document.Distinct
import Deployment.Proofs.Instance.Keys
import Deployment.Proofs.Plan.Address
import Deployment.Proofs.Plan.Parts

/-! # Addresses are unique

Every planned instance has an origin, and the origins of a plan are different: within a document
instances differ in their labels or keys, and the plans of different modules carry different module
names. `Traced` says this of a list of planned instances, and it is kept when plans are put together
and when they are seen from outside of a module. The run follows the documents that planning leads
to, by induction on the depth of modules (`ofDocumentAt_traced`).

Origins are told apart by addresses if labels are plain. Labels are quoted text, though, and nothing
keeps a name from holding what a key is written with. Then two instances can have the same address
(`ofDocument_ambiguous`).
-/

namespace Deployment

open Context (PlainName)

/-- Names of resources and modules without dots and brackets, and types without dots. -/
structure Document.PlainLabels (document : Document) : Prop where
  types : ∀ r ∈ document.resources, '.' ∉ r.type.toList
  names : ∀ r ∈ document.resources, PlainName r.name
  modules : ∀ m ∈ document.modules, PlainName m.name

/-- The two planned instances have different addresses, and different identifiers if they are of
one type. -/
def Planned.Differ (p q : Planned) : Prop :=
  p.address ≠ q.address ∧ (p.type = q.type → p.identifier ≠ q.identifier)

/-! ## Traced plans -/

/-- Planned instances with different origins that can be told from their addresses. -/
structure Traced (planned : List Planned) (origins : List Origin) : Prop where
  comesFrom : List.Forall₂ Planned.ComesFrom planned origins
  plain : ∀ o ∈ origins, o.Plain
  nodup : origins.Nodup

namespace Traced

variable {planned planned' : List Planned} {origins origins' : List Origin}

theorem nil : Traced [] [] :=
  ⟨.nil, by simp, List.nodup_nil⟩

theorem append (h : Traced planned origins) (h' : Traced planned' origins')
    (hdisjoint : ∀ o ∈ origins, o ∉ origins') :
    Traced (planned ++ planned') (origins ++ origins') where
  comesFrom := List.rel_append h.comesFrom h'.comesFrom
  plain o ho := (List.mem_append.mp ho).elim (h.plain o) (h'.plain o)
  nodup := by
    refine List.nodup_append.mpr ⟨h.nodup, h'.nodup, ?_⟩
    rintro o ho o' ho' rfl
    exact hdisjoint o ho ho'

theorem within (h : Traced planned origins) {name : String} (hname : PlainName name) :
    Traced (planned.map (·.within name)) (origins.map (·.within name)) where
  comesFrom := by
    rw [List.forall₂_map_left_iff, List.forall₂_map_right_iff]
    exact h.comesFrom.imp fun p o hp => hp.within name
  plain o ho := by
    obtain ⟨o', ho', rfl⟩ := List.mem_map.mp ho
    exact (h.plain o' ho').within hname
  nodup := by
    refine h.nodup.map fun o o' heq => ?_
    obtain ⟨modules, type, label, key⟩ := o
    obtain ⟨modules', type', label', key'⟩ := o'
    simpa [Origin.within] using heq

theorem addresses (h : Traced planned origins) :
    planned.map Planned.address = origins.map Origin.address := by
  obtain ⟨hcomes, hplain, -⟩ := h
  induction hcomes with
  | nil => rfl
  | cons hp _ ih =>
    obtain ⟨ho, horigins⟩ := List.forall_mem_cons.mp hplain
    rw [List.map_cons, List.map_cons, hp.address_eq ho, ih horigins]

/-- Traced instances are pairwise different, as addresses determine origins. -/
theorem pairwise_differ (h : Traced planned origins) : planned.Pairwise Planned.Differ := by
  have haddresses : (planned.map Planned.address).Nodup := by
    rw [h.addresses]
    apply h.nodup.map_on
    intro o ho o' ho' heq
    exact Origin.address_inj (h.plain o ho) (h.plain o' ho') heq
  refine (List.pairwise_map.mp haddresses).imp fun {p q} hne => ⟨hne, fun htype hidentifier => ?_⟩
  apply hne
  rw [Planned.address, Planned.address, htype, hidentifier]

end Traced

namespace Plan

/-! ## The instances of a document -/

/-- The instances of a document's own resources are traced to origins outside of modules. -/
theorem own_traced {settings : Settings} {context : Context} {document : Document}
    (hcontext : context.Distinct) (hdocument : document.Distinct) (hplain : document.PlainLabels)
    {all : List Instance} (hall : instances settings context document = .ok all)
    {regions : ProviderRegions} {own : List Planned}
    (hown : all.mapM (finalize context regions) = .ok own) :
    ∃ origins, Traced own origins ∧ ∀ o ∈ origins, o.modules = [] := by
  obtain ⟨hnodup, hlabels⟩ :=
    instances_nodup hcontext (Resource.labels_nodup hdocument.resources) all hall
  let origin (i : Instance) : Origin := ⟨[], i.type, i.name, i.key⟩
  refine ⟨all.map origin, ⟨?_, ?_, ?_⟩, ?_⟩
  · rw [List.forall₂_map_right_iff]
    exact ((Except.mapM_eq_ok.mp hown).imp fun i p hp => finalize_comesFrom hp).flip
  · intro o ho
    obtain ⟨i, hi, rfl⟩ := List.mem_map.mp ho
    obtain ⟨r, hr, heq⟩ := hlabels i hi
    obtain ⟨htype, hname⟩ := Prod.mk.inj heq
    refine ⟨by simp [origin], ?_, ?_⟩
    · show '.' ∉ i.type.toList
      rw [htype]
      exact hplain.types r hr
    · show PlainName i.name
      rw [hname]
      exact hplain.names r hr
  · have hcoordinates : all.map Instance.coordinates =
        (all.map origin).map fun o => ((o.type, o.name), o.key) := by
      rw [List.map_map]
      rfl
    rw [hcoordinates] at hnodup
    exact hnodup.of_map
  · intro o ho
    obtain ⟨i, -, rfl⟩ := List.mem_map.mp ho
    rfl

/-! ## The modules of a document -/

/-- The documents that planning a document at a place leads to: itself, and from its modules. -/
inductive Reaches : Option Place → Document → Document → Prop
  | self (place? : Option Place) (document : Document) : Reaches place? document document
  | module {place : Place} {document loaded d : Document} {m : Module}
      (hm : m ∈ document.modules) (hload : loadDocument (place.descend m) = .ok loaded)
      (h : Reaches (some (place.descend m)) loaded d) : Reaches (some place) document d

/-- What is known of the plans of documents that a run descends to. -/
def Descends (descend : Document → Setting → Except Fault (List Planned)) : Prop :=
  ∀ document setting, (∀ name v, (name, v) ∈ setting.vars → v.Distinct) → document.Distinct →
    (∀ d, Reaches setting.place? document d → d.PlainLabels) →
    Ensures (descend document setting) fun planned => ∃ origins, Traced planned origins

/-- The plans of modules with different names are traced to origins that start with those names. -/
theorem modules_traced {settings : Settings}
    {descend? : Option (Document → Setting → Except Fault (List Planned))}
    (hdescend : ∀ descend, descend? = some descend → Descends descend) {context : Context}
    (hcontext : context.Distinct) {place? : Option Place} {regions : ProviderRegions}
    {modules : List Module} (hnodup : (modules.map Module.name).Nodup)
    (hplain : ∀ m ∈ modules, PlainName m.name)
    (hreach : ∀ m ∈ modules, ∀ place loaded d, place? = some place →
      loadDocument (place.descend m) = .ok loaded → Reaches (some (place.descend m)) loaded d →
      d.PlainLabels)
    {nested : List (List Planned)}
    (h : modules.mapM (ofModule settings descend? context place? regions) = .ok nested) :
    ∃ origins, Traced nested.flatten origins ∧
      ∀ o ∈ origins, ∃ m ∈ modules, o.modules.head? = some m.name := by
  have hall := Except.mapM_eq_ok.mp h
  clear h
  induction hall with
  | nil => exact ⟨[], .nil, by simp⟩
  | @cons m planned modules nested hm _ ih =>
    obtain ⟨hnew, hnodup⟩ := List.nodup_cons.mp hnodup
    obtain ⟨hname, hplain⟩ := List.forall_mem_cons.mp hplain
    obtain ⟨hreachm, hreach⟩ := List.forall_mem_cons.mp hreach
    obtain ⟨others, htraced, hothers⟩ := ih hnodup hplain hreach
    obtain ⟨-, -, descend, place, inputs, loaded, inner, hsome, hplace, hinputs, hloaded, hinner,
      rfl⟩ := ofModule_eq_ok.mp hm
    have hdistinct := Draft.evaluateAttributes_distinct hcontext m.inputs _ inputs hinputs
    obtain ⟨origins, horigins⟩ := hdescend descend hsome loaded _ hdistinct
      (loadDocument_distinct _ loaded hloaded)
      (fun d hd => hreachm place loaded d hplace hloaded hd) inner hinner
    refine ⟨origins.map (·.within m.name) ++ others, ?_, ?_⟩
    · -- The first name tells the modules apart, whatever is planned in them.
      refine (horigins.within hname).append htraced fun o ho hmem => ?_
      obtain ⟨o', -, rfl⟩ := List.mem_map.mp ho
      obtain ⟨m', hm', heq⟩ := hothers _ hmem
      exact hnew (List.mem_map.mpr ⟨m', hm', (Option.some.inj heq).symm⟩)
    · intro o ho
      rcases List.mem_append.mp ho with hfirst | hlater
      · obtain ⟨o', -, rfl⟩ := List.mem_map.mp hfirst
        exact ⟨m, List.mem_cons_self, rfl⟩
      · obtain ⟨m', hm', heq⟩ := hothers o hlater
        exact ⟨m', List.mem_cons_of_mem _ hm', heq⟩

/-! ## The run -/

/-- The instances of a document and of its modules are traced together. -/
theorem ofDocumentWith_traced {settings : Settings}
    {descend? : Option (Document → Setting → Except Fault (List Planned))}
    (hdescend : ∀ descend, descend? = some descend → Descends descend) :
    Descends (ofDocumentWith settings descend?) := by
  intro document setting hvars hdocument hreach planned h
  obtain ⟨context, all, regions, own, nested, hcontext, hall, -, hown, hnested, rfl⟩ :=
    ofDocumentWith_eq_ok.mp h
  have hplain := hreach document (.self _ _)
  have hdistinct := document.resolveContext_distinct hvars hdocument.defaults context hcontext
  obtain ⟨origins, horigins, houtside⟩ := own_traced hdistinct hdocument hplain hall hown
  obtain ⟨others, hothers, hinside⟩ := modules_traced hdescend hdistinct hdocument.modules
    hplain.modules (fun m hm place loaded d hplace hloaded hd => hreach d (by
      rw [hplace]
      exact .module hm hloaded hd)) hnested
  -- The document's own instances stand in no module, and the others in one.
  refine ⟨origins ++ others, horigins.append hothers fun o ho hmem => ?_⟩
  obtain ⟨m, -, heq⟩ := hinside o hmem
  rw [houtside o ho] at heq
  cases heq

/-- By induction on the depth of modules, every plan is traced. -/
theorem ofDocumentAt_traced (settings : Settings) (depth : Nat) :
    Descends (ofDocumentAt settings depth) := by
  induction depth with
  | zero => exact ofDocumentWith_traced (by simp)
  | succ depth ih =>
    apply ofDocumentWith_traced
    intro descend hsome
    obtain rfl := Option.some.inj hsome
    exact ih

/-- All addresses in a plan are different, and all identifiers of one type, if the labels in every
document of the run are plain: for documents from any files without modules, and for paths with all
local modules behind them. -/
theorem planned_differ (settings : Settings)
    (hvars : ∀ name v, (name, v) ∈ settings.vars → v.Distinct) :
    (∀ files document planned, Document.ofFiles files = .ok document → document.PlainLabels →
      ofDocument settings document = .ok planned → planned.Pairwise Planned.Differ) ∧
    ∀ tree directory path document planned, loadDocument ⟨tree, directory, path⟩ = .ok document →
      (∀ d, Reaches (some ⟨tree, directory, tree.basePath directory path⟩) document d →
        d.PlainLabels) →
      ofPath settings tree directory path = .ok planned → planned.Pairwise Planned.Differ := by
  constructor
  · intro files document planned hfiles hplain h
    have hreach (d : Document) (hd : Reaches none document d) : d.PlainLabels := by
      cases hd
      exact hplain
    obtain ⟨origins, horigins⟩ := ofDocumentAt_traced settings _ document ⟨_, none, []⟩ hvars
      (Document.ofFiles_distinct files document hfiles) hreach planned h
    exact horigins.pairwise_differ
  · intro tree directory path document planned hload hreach h
    obtain ⟨loaded, hloaded, h⟩ := Except.bind_eq_ok.mp h
    obtain rfl := Except.ok.inj (hload.symm.trans hloaded)
    obtain ⟨origins, horigins⟩ := ofDocumentAt_traced settings _ document ⟨_, some _, []⟩ hvars
      (loadDocument_distinct _ document hload) hreach planned h
    exact horigins.pairwise_differ

/-! ## A name that looks like a key -/

/-- A file with a resource of a given name beside a counted one. -/
def besideCountedFile (name : String) : SourceFile where
  name? := none
  body := [
    .block "resource" ["vm", name] [.attribute "region" (.text "us-east-1")],
    .block "resource" ["vm", "web"]
      [.attribute "count" (.number (.integer 1)), .attribute "region" (.text "us-east-1")]]

/-- The document of the file. -/
def besideCounted (name : String) : Document :=
  { Document.empty with
    resources := [
      ⟨"vm", name, none, [("region", .text "us-east-1")]⟩,
      ⟨"vm", "web", none, [("count", .number (.integer 1)), ("region", .text "us-east-1")]⟩] }

/-- Its plan, with one instance of either resource. -/
def besideCountedPlan (name : String) : List Planned :=
  [name, "web[0]"].map fun identifier =>
    ⟨identifier, "vm", .number 0, [("region", .text "us-east-1")], "us-east-1"⟩

theorem instances_besideCounted (name : String) :
    instances ⟨1, 1, 0, []⟩ ⟨[], []⟩ (besideCounted name) =
      .ok [⟨"vm", name, none, none, [("region", .text "us-east-1")]⟩,
        ⟨"vm", "web", none, some (.number 0), [("region", .text "us-east-1")]⟩] := by
  have hcounted : Resource.exists? ⟨[], []⟩
      ⟨"vm", "web", none, [("count", .number (.integer 1)), ("region", .text "us-east-1")]⟩ =
        .ok true := rfl
  have hexist : Resource.resolveAll ⟨[], []⟩ (besideCounted name).resources =
      .ok (besideCounted name).resources := by
    show Resource.resolveAll _ [_, _] = _
    rw [Resource.resolveAll, Resource.resolveAll, hcounted]
    cbv
  rw [instances, hexist]
  cbv

theorem ofDocument_besideCounted (name : String) :
    ofDocument ⟨1, 1, 0, []⟩ (besideCounted name) = .ok (besideCountedPlan name) := by
  refine ofDocumentWith_eq_ok.mpr ⟨⟨[], []⟩, _, [], besideCountedPlan name, [], rfl,
    instances_besideCounted name, rfl, ?_, rfl, (List.append_nil _).symm⟩
  cbv

/-- A plain name leaves the counted instance its address. -/
theorem besideCounted_differ :
    Document.ofFiles [besideCountedFile "db"] = .ok (besideCounted "db") ∧
      (besideCounted "db").PlainLabels ∧ (besideCountedPlan "db").Pairwise Planned.Differ := by
  have hfiles : Document.ofFiles [besideCountedFile "db"] = .ok (besideCounted "db") := rfl
  have hplain : (besideCounted "db").PlainLabels := ⟨by decide, by decide, by decide⟩
  exact ⟨hfiles, hplain, (planned_differ ⟨1, 1, 0, []⟩ (by simp)).1 _ _ _ hfiles hplain
    (ofDocument_besideCounted "db")⟩

/-- A resource may be named like the counted instance, and both have the same address then. -/
theorem ofDocument_ambiguous :
    Document.ofFiles [besideCountedFile "web[0]"] = .ok (besideCounted "web[0]") ∧
      ofDocument ⟨1, 1, 0, []⟩ (besideCounted "web[0]") = .ok (besideCountedPlan "web[0]") ∧
      ¬(besideCountedPlan "web[0]").Pairwise Planned.Differ := by
  refine ⟨rfl, ofDocument_besideCounted "web[0]", ?_⟩
  intro h
  have hdiffer := List.rel_of_pairwise_cons h List.mem_cons_self
  exact hdiffer.1 rfl

end Plan

end Deployment
