import Deployment.Proofs.Entries
import Deployment.Proofs.Plan.Levels

/-! # Where regions come from

Every level adds the regions of its own provider configurations to those that it has come with, and
hands the result on to the levels that it opens. So the region that is in effect for a key is that
of the nearest level around which gives one (`Descent.regions`), whatever else the levels in between
have added. With the attributes of a resource this settles its region: `Located` says in which of
three ways, and every region in a plan is found in one of them (`regionFound_of_mem`).
-/

namespace Deployment

/-! ## Provider configurations -/

/-- The region of a provider configuration: its attribute `region`, unless that is absent or
null. -/
def Provider.region? (context : Context) (p : Provider) : Option String := do
  let d ← p.attributes.get? regionAttribute
  match d.evaluate context (Draft.entryLocation ("provider." ++ p.key) regionAttribute) with
  | .ok (.text region) => some region
  | _ => none

/-- A configuration that is accepted has the region that it gives. -/
theorem providerRegion_eq_ok {context : Context} {p : Provider} {region? : Option String}
    (h : providerRegion context p = .ok region?) : p.region? context = region? := by
  unfold providerRegion at h
  unfold Provider.region?
  cases hd : p.attributes.get? regionAttribute with
  | none =>
    rw [hd] at h
    exact Except.ok.inj h
  | some d =>
    simp only [hd] at h
    simp only [Option.bind_eq_bind, Option.bind_some]
    split at h
    · cases h
    · rename_i heq
      rw [heq]
      exact Except.ok.inj h
    · rename_i heq
      rw [heq]
      exact Except.ok.inj h
    · cases h

/-- After provider configurations with different keys, a key has the region of its configuration if
that gives one, and else the region it had before. -/
theorem get?_registerProviders {context : Context} {providers : List Provider}
    (hnodup : (providers.map Provider.key).Nodup) {regions regions' : ProviderRegions}
    (h : registerProviders context regions providers = (regions', none)) (key : String) :
    regions'.get? key =
      ((providers.find? (·.key == key)).bind (Provider.region? context)).or (regions.get? key) := by
  induction providers generalizing regions with
  | nil =>
    obtain ⟨rfl, -⟩ := Prod.mk.inj h
    rfl
  | cons p rest ih =>
    obtain ⟨hnew, hnodup⟩ := List.nodup_cons.mp hnodup
    -- With different keys only one configuration can decide.
    have hfirst (hkey : p.key = key) : rest.find? (·.key == key) = none := by
      rw [List.find?_eq_none]
      intro q hq heq
      exact hnew (List.mem_map.mpr ⟨q, hq, by rw [beq_iff_eq.mp heq, hkey]⟩)
    rw [registerProviders] at h
    cases hregion : providerRegion context p with
    | error fault =>
      rw [hregion] at h
      cases h
    | ok region? =>
      have hgiven := providerRegion_eq_ok hregion
      rw [hregion] at h
      by_cases hkey : p.key = key
      · rw [List.find?_cons_of_pos (by simpa using hkey), Option.bind_some, hgiven]
        cases region? with
        | none => rw [ih hnodup h, hfirst hkey]; rfl
        | some region => rw [ih hnodup h, hfirst hkey, hkey, Entries.get?_put_self]; rfl
      · rw [List.find?_cons_of_neg (by simpa using hkey)]
        cases region? with
        | none => exact ih hnodup h
        | some region => rw [ih hnodup h, Entries.get?_put_of_ne _ _ (Ne.symm hkey)]

/-! ## Attributes -/

/-- The attributes have no value for a name, or null. -/
def Lacks (attributes : Entries Value) (name : String) : Prop :=
  attributes.get? name = none ∨ attributes.get? name = some .null

section Attributes

variable {attributes : Entries Value} {owner name zone region : String} {text? : Option String}

/-- An attribute that is accepted as text is absent or null, or it is a text. -/
theorem textAttribute?_eq_ok (h : textAttribute? attributes owner name = .ok text?) :
    (text? = none ∧ Lacks attributes name) ∨
      ∃ s, text? = some s ∧ attributes.get? name = some (.text s) := by
  unfold textAttribute? at h
  split at h
  · rename_i hnone
    exact .inl ⟨(Except.ok.inj h).symm, .inl hnone⟩
  · rename_i hnull
    exact .inl ⟨(Except.ok.inj h).symm, .inr hnull⟩
  · rename_i s htext
    exact .inr ⟨s, (Except.ok.inj h).symm, htext⟩
  · cases h

/-- A region that passes the check is a known one. -/
theorem checkRegion_eq_ok {found : String} {origin : RegionOrigin}
    (h : checkRegion owner found origin = .ok region) : region = found ∧ region ∈ knownRegions := by
  unfold checkRegion at h
  split at h
  · rename_i hknown
    obtain rfl := Except.ok.inj h
    exact ⟨rfl, List.contains_iff_mem.mp hknown⟩
  · cases h

/-- The name of a zone is that of its region and one more letter. -/
theorem regionOfZone?_eq_some (h : regionOfZone? zone = some region) :
    ∃ letter : Char, letter.isLower ∧ zone = region.push letter := by
  unfold regionOfZone? at h
  split at h
  · rename_i letter digit rest hreverse
    split at h
    · rename_i hends
      obtain rfl := Option.some.inj h
      have hzone : zone.toList = (digit :: rest).reverse ++ [letter] := by
        rw [← List.reverse_cons, ← hreverse, List.reverse_reverse]
      refine ⟨letter, hends.1, String.toList_injective ?_⟩
      rw [String.toList_push, String.toList_ofList, hzone, List.dropLast_concat]
    · cases h
  · cases h

end Attributes

/-! ## Levels -/

namespace Plan

open Level

variable {settings : Settings} {l d : Level} {names : List String} {around : List Level}

/-- The region that a level's own provider configuration with a key gives. -/
def Level.regionOf? (l : Level) (key : String) : Option String := do
  let context ← (l.document.resolveContext l.setting.vars).toOption
  let p ← l.document.providers.find? (·.key == key)
  p.region? context

/-- In a level, its own configurations come before the regions that it has come with. -/
theorem Level.InEffect.get? {context : Context} {regions : ProviderRegions}
    (h : l.InEffect context regions) (hdistinct : l.document.Distinct) (key : String) :
    regions.get? key = (l.regionOf? key).or (l.setting.regions.get? key) := by
  rw [get?_registerProviders hdistinct.providers h.registered key, Level.regionOf?, h.resolved]
  rfl

/-- Every document on a descent is free of duplicates: loading refuses them. -/
theorem Descent.distinct (h : Descent l names around d) (hl : l.document.Distinct) :
    d.document.Distinct := by
  induction h with
  | here l => exact hl
  | deeper hopens _ ih =>
    obtain ⟨-, -, -, -, -, -, hload⟩ := hopens
    exact ih (loadDocument_distinct _ _ hload)

/-- The regions that come to the end of a descent are those of the nearest levels around. -/
theorem Descent.regions (h : Descent l names around d) (hl : l.document.Distinct) (key : String) :
    d.setting.regions.get? key =
      (around.findSome? (·.regionOf? key)).or (l.setting.regions.get? key) := by
  induction h with
  | here l => rfl
  | @deeper l inner d m names around hopens hdescent ih =>
    obtain ⟨heffect, -, -, -, -, -, hload⟩ := hopens
    rw [ih (loadDocument_distinct _ _ hload), heffect.get? hl, List.findSome?_append,
      List.findSome?_singleton, Option.or_assoc]

/-! ## Regions of instances -/

/-- The region of a resource that uses a provider configuration by its key and stands in levels, the
innermost first. -/
inductive Located (levels : List Level) (key : String) (attributes : Entries Value) : String → Prop
  | attribute {region : String} (h : attributes.get? regionAttribute = some (.text region)) :
      Located levels key attributes region
  | provider {region : String} (hlacks : Lacks attributes regionAttribute)
      (h : levels.findSome? (·.regionOf? key) = some region) :
      Located levels key attributes region
  | zone {region : String} {letter : Char} (hlacks : Lacks attributes regionAttribute)
      (hnone : levels.findSome? (·.regionOf? key) = none)
      (h : attributes.get? zoneAttribute = some (.text (region.push letter)))
      (hletter : letter.isLower) : Located levels key attributes region

/-- The resolution looks at the attribute, at the configurations and at the zone, in this order, and
says so. -/
theorem located_of_resolveRegion {levels : List Level} {regions : ProviderRegions}
    {address type region : String} {provider : Option String} {attributes : Entries Value}
    (hregions : regions.get? (providerKey type provider) =
      levels.findSome? (·.regionOf? (providerKey type provider)))
    (h : resolveRegion regions address type provider attributes = .ok region) :
    region ∈ knownRegions ∧ Located levels (providerKey type provider) attributes region := by
  obtain ⟨given?, hgiven, h⟩ := Except.bind_eq_ok.mp h
  rcases textAttribute?_eq_ok hgiven with ⟨rfl, hlacks⟩ | ⟨given, rfl, hattribute⟩
  · dsimp only at h
    split at h
    · rename_i found hfound
      obtain ⟨rfl, hknown⟩ := checkRegion_eq_ok h
      exact ⟨hknown, .provider hlacks (hregions.symm.trans hfound)⟩
    · rename_i hnone
      obtain ⟨zone?, hzone, h⟩ := Except.bind_eq_ok.mp h
      rcases textAttribute?_eq_ok hzone with ⟨rfl, -⟩ | ⟨zone, rfl, hattribute⟩
      · cases h
      · dsimp only at h
        split at h
        · rename_i found hfound
          obtain ⟨rfl, hknown⟩ := checkRegion_eq_ok h
          obtain ⟨letter, hletter, rfl⟩ := regionOfZone?_eq_some hfound
          exact ⟨hknown, .zone hlacks (hregions.symm.trans hnone) hattribute hletter⟩
        · cases h
  · obtain ⟨rfl, hknown⟩ := checkRegion_eq_ok h
    exact ⟨hknown, .attribute hattribute⟩

/-- A planned instance comes from a resource at the end of a descent, and its region is a known one
that the resource has there. -/
def RegionFound (settings : Settings) (start : Level) (p : Planned) : Prop :=
  ∃ names around d r i, Descent start names around d ∧ d.Instantiates settings r i ∧
    p.ComesFrom ⟨names, r.type, r.name, i.key⟩ ∧ p.region ∈ knownRegions ∧
    Located (d :: around) (providerKey r.type r.provider) p.attributes p.region

/-- From a level without regions around it, all regions are found in levels of the run. -/
theorem regionFound_of_mem (hl : l.document.Distinct) (hregions : l.setting.regions = [])
    {depth : Nat} {planned : List Planned}
    (h : ofDocumentAt settings depth l.document l.setting = .ok planned) {p : Planned}
    (hp : p ∈ planned) : RegionFound settings l p := by
  obtain ⟨names, around, d, r, i, q, hdescent, hq, rfl⟩ := descent_of_mem h hp
  have horigin := hq.comesFrom names
  obtain @⟨context, regions, heffect, hi, hfinalize⟩ := hq
  have hcopy := hi.copy
  obtain ⟨attributes, -, hfinalize⟩ := Except.bind_eq_ok.mp hfinalize
  obtain ⟨region, hregion, hfinalize⟩ := Except.bind_eq_ok.mp hfinalize
  obtain rfl := Except.ok.inj hfinalize
  rw [Except.mapError_eq_ok, hcopy.type, hcopy.provider] at hregion
  have hlevels (key : String) : regions.get? key = (d :: around).findSome? (·.regionOf? key) := by
    rw [heffect.get? (hdescent.distinct hl), hdescent.regions hl, hregions, Entries.get?_nil,
      Option.or_none, ← List.singleton_append, List.findSome?_append, List.findSome?_singleton]
  refine ⟨names, around, d, r, i, hdescent, hi, horigin, ?_⟩
  rw [foldr_within_region, foldr_within_attributes]
  exact located_of_resolveRegion (hlevels _) hregion

/-- Every region in a plan is known, and it is the attribute `region` of the resource, else the
region of the nearest provider configuration with its key, else what its zone is named for: for
documents from any files, and for paths with all local modules behind them. -/
theorem planned_located (settings : Settings) :
    (∀ files document planned, Document.ofFiles files = .ok document →
      ofDocument settings document = .ok planned →
      ∀ p ∈ planned, RegionFound settings (.root settings document none) p) ∧
    ∀ tree directory path document planned, loadDocument ⟨tree, directory, path⟩ = .ok document →
      ofPath settings tree directory path = .ok planned →
      ∀ p ∈ planned, RegionFound settings (.root settings document
        (some ⟨tree, directory, tree.basePath directory path⟩)) p := by
  constructor
  · intro files document planned hfiles h p hp
    exact regionFound_of_mem (l := .root settings document none)
      (Document.ofFiles_distinct files document hfiles) rfl h hp
  · intro tree directory path document planned hload h p hp
    rw [ofPath_eq hload] at h
    exact regionFound_of_mem (l := .root settings document (some _))
      (loadDocument_distinct _ document hload) rfl h hp

/-- The disk in the nested directory has the region of the configuration around its module. -/
theorem nested_located :
    loadDocument ⟨nestedTree, [], "/w/"⟩ = .ok nestedOuter ∧
      ofPath ⟨0, 0, 1, []⟩ nestedTree [] "/w/" = .ok nestedPlan ∧
      ∀ p ∈ nestedPlan, RegionFound ⟨0, 0, 1, []⟩ (.root ⟨0, 0, 1, []⟩ nestedOuter
        (some ⟨nestedTree, [], nestedTree.basePath [] "/w/"⟩)) p :=
  ⟨loadDocument_nestedOuter, ofPath_nested,
    (planned_located ⟨0, 0, 1, []⟩).2 _ _ _ _ _ loadDocument_nestedOuter ofPath_nested⟩

end Plan

end Deployment
