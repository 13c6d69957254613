import Deployment.Proofs.Instance.Stages
import Deployment.Proofs.Plan.Parts

/-! # Resources do not influence each other

Planning takes all resources of a document through one stage before the next one starts, so a
resource is never planned alone. Still the outcome is that of planning every resource alone: all
stages are partwise, the finalization included (`ofResources_partwise`), and they see nothing else
of the document than its variables, local values and providers. A document without modules has a
plan exactly if each of its resources has one in a document of its own, and it is made of these
plans.
-/

namespace Deployment.Plan

variable {settings : Settings} {document : Document} {planned : List Planned}

/-- The plans of the instances of resources that stand in a document. -/
def ofResources (settings : Settings) (context : Context) (regions : ProviderRegions)
    (document : Document) (resources : List Resource) : Except Fault (List Planned) := do
  let all ← (instances settings context { document with resources }).mapError .evaluation
  all.mapM (finalize context regions)

/-- Four stages and the finalization together work on every resource by itself. -/
theorem ofResources_partwise (settings : Settings) (context : Context) (regions : ProviderRegions)
    (document : Document) : Partwise (ofResources settings context regions document) :=
  ((instances_partwise settings context document).mapError _).comp (.mapM _)

/-- A document without modules has a plan if it has a context and regions, which do not depend on
its resources, and its resources have plans. -/
theorem ofDocument_resources_eq_ok (hmodules : document.modules = []) {resources : List Resource} :
    ofDocument settings { document with resources } = .ok planned ↔
      ∃ context regions, document.resolveContext settings.vars = .ok context ∧
        registerProviders context [] document.providers = (regions, none) ∧
        ofResources settings context regions document resources = .ok planned := by
  rw [ofDocument, ofDocumentAt_eq, ofDocumentWith_eq_ok, hmodules]
  constructor
  · rintro ⟨context, all, regions, own, nested, hcontext, hall, hregions, hown, hnested, rfl⟩
    obtain rfl : [] = nested := Except.ok.inj hnested
    refine ⟨context, regions, hcontext, hregions, ?_⟩
    refine Except.bind_eq_ok.mpr ⟨all, Except.mapError_eq_ok.mpr hall, ?_⟩
    rw [hown, List.flatten_nil, List.append_nil]
  · rintro ⟨context, regions, hcontext, hregions, h⟩
    obtain ⟨all, hall, hown⟩ := Except.bind_eq_ok.mp h
    exact ⟨context, all, regions, planned, [], hcontext, Except.mapError_eq_ok.mp hall, hregions,
      hown, rfl, (List.append_nil _).symm⟩

/-- With a context and regions, what is planned is up to the resources. -/
theorem ofDocument_resources_eq {context : Context} {regions : ProviderRegions}
    (hmodules : document.modules = [])
    (hcontext : document.resolveContext settings.vars = .ok context)
    (hregions : registerProviders context [] document.providers = (regions, none))
    {resources : List Resource} :
    ofDocument settings { document with resources } = .ok planned ↔
      ofResources settings context regions document resources = .ok planned := by
  rw [ofDocument_resources_eq_ok hmodules]
  constructor
  · rintro ⟨context', regions', hcontext', hregions', h⟩
    obtain rfl := Except.ok.inj (hcontext.symm.trans hcontext')
    obtain ⟨rfl, -⟩ := Prod.mk.inj (hregions.symm.trans hregions')
    exact h
  · intro h
    exact ⟨context, regions, hcontext, hregions, h⟩

/-- A document without modules has a plan exactly if it has one with each of its resources alone,
and its plan is made of these plans in the order of declaration. -/
theorem ofDocument_iff_only (settings : Settings) (document : Document)
    (hmodules : document.modules = []) (hresources : document.resources ≠ []) :
    ((∃ planned, ofDocument settings document = .ok planned) ↔
      ∀ r ∈ document.resources, ∃ part, ofDocument settings (document.only r) = .ok part) ∧
    ∀ planned, ofDocument settings document = .ok planned ↔
      ∃ parts, List.Forall₂ (fun r part => ofDocument settings (document.only r) = .ok part)
        document.resources parts ∧ planned = parts.flatten := by
  -- Whether there is a context with regions is the same for the whole and for every resource.
  by_cases hrun : ∃ context regions, document.resolveContext settings.vars = .ok context ∧
      registerProviders context [] document.providers = (regions, none)
  · obtain ⟨context, regions, hcontext, hregions⟩ := hrun
    have hplan {resources : List Resource} {planned : List Planned} :
        ofDocument settings { document with resources } = .ok planned ↔
          ofResources settings context regions document resources = .ok planned :=
      ofDocument_resources_eq hmodules hcontext hregions
    have hparts := ofResources_partwise settings context regions document
    constructor
    · calc (∃ planned, ofDocument settings document = .ok planned)
          ↔ ∃ planned, ofResources settings context regions document document.resources =
              .ok planned := exists_congr fun _ => hplan
        _ ↔ ∀ r ∈ document.resources, ∃ part,
              ofResources settings context regions document [r] = .ok part := hparts.succeeds_iff
        _ ↔ ∀ r ∈ document.resources, ∃ part, ofDocument settings (document.only r) = .ok part :=
              forall₂_congr fun _ _ => exists_congr fun _ => hplan.symm
    · intro planned
      refine (hplan.trans hparts.eq_ok_iff).trans (exists_congr fun parts => ?_)
      refine and_congr_left' ?_
      constructor
      · exact List.Forall₂.imp fun _ _ => hplan.mpr
      · exact List.Forall₂.imp fun _ _ => hplan.mp
  · have hnone {resources : List Resource} {planned : List Planned} :
        ofDocument settings { document with resources } ≠ .ok planned := by
      intro h
      obtain ⟨context, regions, hcontext, hregions, -⟩ := (ofDocument_resources_eq_ok hmodules).mp h
      exact hrun ⟨context, regions, hcontext, hregions⟩
    obtain ⟨r, rest, hcons⟩ := List.exists_cons_of_ne_nil hresources
    constructor
    · constructor
      · rintro ⟨planned, h⟩
        exact absurd h hnone
      · intro h
        obtain ⟨part, hpart⟩ := h r (hcons ▸ List.mem_cons_self)
        exact absurd hpart hnone
    · intro planned
      constructor
      · intro h
        exact absurd h hnone
      · rintro ⟨parts, hparts, -⟩
        rw [hcons] at hparts
        obtain _ | ⟨hpart, -⟩ := hparts
        exact absurd hpart hnone

/-- A document with resources of every kind: one that is left out, one with two numbered instances,
one with a key, and one that is not repeated. -/
def mixed : Document :=
  { Document.empty with
    resources := [
      ⟨"vm_disk", "off", none, [("count", .bool false)]⟩,
      ⟨"vm_disk", "web", none, [("count", .number (.integer 2))]⟩,
      ⟨"vm_disk", "db", none, [("for_each", .list [.text "a"])]⟩,
      ⟨"vm_disk", "log", none, []⟩]
    providers := [⟨"vm", none, [("region", .text "us-east-1")]⟩] }

/-- The plans of its resources. -/
def mixedParts : List (List Planned) :=
  let disk (identifier : String) (index : IndexKey) : Planned :=
    ⟨identifier, "vm_disk", index, [], "us-east-1"⟩
  [[], [disk "web[0]" (.number 0), disk "web[1]" (.number 1)], [disk "db[\"a\"]" (.text "a")],
    [disk "log" (.number 0)]]

/-- The four plans give that of the document. -/
theorem mixed_iff_only :
    mixed.modules = [] ∧ mixed.resources ≠ [] ∧
      ofDocument ⟨2, 1, 0, []⟩ mixed = .ok mixedParts.flatten := by
  have hmodules : mixed.modules = [] := rfl
  have hresources : mixed.resources ≠ [] := List.cons_ne_nil _ _
  refine ⟨hmodules, hresources, ?_⟩
  refine ((ofDocument_iff_only ⟨2, 1, 0, []⟩ mixed hmodules hresources).2 _).mpr
    ⟨mixedParts, ?_, rfl⟩
  have hregions : registerProviders ⟨[], []⟩ [] mixed.providers =
      ([("vm", "us-east-1")], none) := by cbv
  have honly {r : Resource} {part : List Planned}
      (h : ofResources ⟨2, 1, 0, []⟩ ⟨[], []⟩ [("vm", "us-east-1")] mixed [r] = .ok part) :
      ofDocument ⟨2, 1, 0, []⟩ (mixed.only r) = .ok part :=
    (ofDocument_resources_eq hmodules rfl hregions).mpr h
  exact .cons (honly rfl) (.cons (honly rfl) (.cons (honly (by cbv)) (.cons (honly rfl) .nil)))

end Deployment.Plan
