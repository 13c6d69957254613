import Deployment.Proofs.Plan.Levels

/-! # The depth of modules is bounded

The source of a module may lead back to its own document or to one around it, so the levels that a
run could open need not come to an end. What bounds the run is that it counts the modules around a
level and opens no more levels where there are as many as the limit allows. `Ends` describes a run
that has no other bound: to end in a level it has to end in every level that it may open there. It
does end, with a single outcome, which is that of the run with a given depth (`ends_iff`).
-/

namespace Deployment.Plan

variable {settings : Settings} {l : Level}

/-! ## Runs that end -/

/-- The run over a level with `depth` modules around it ends with an outcome. It opens the levels of
modules as long as the limit allows, and has to end in them. -/
inductive Ends (settings : Settings) : Nat → Level → Except Fault (List Planned) → Prop
  | intro {depth : Nat} {l : Level} (run : Document → Setting → Except Fault (List Planned))
      (h : depth < settings.maxModuleDepth → ∀ m inner, l.Opens m inner →
        Ends settings (depth + 1) inner (run inner.document inner.setting)) :
      Ends settings depth l (ofDocumentWith settings
        (if depth < settings.maxModuleDepth then some run else none) l.document l.setting)

section Congruence

variable {run run' : Document → Setting → Except Fault (List Planned)}
  (h : ∀ m inner, l.Opens m inner →
    run inner.document inner.setting = run' inner.document inner.setting)
include h

/-- What is planned for a module depends only on what is planned for the levels that it opens. -/
theorem ofModule_congr {context : Context} {regions : ProviderRegions}
    (heffect : l.InEffect context regions) {m : Module} (hm : m ∈ l.document.modules) :
    ofModule settings (some run) context l.setting.place? regions m =
      ofModule settings (some run') context l.setting.place? regions m := by
  unfold ofModule
  refine ite_congr rfl (fun _ => rfl) fun hremote => ?_
  refine ite_congr rfl (fun _ => rfl) fun hrepeated => ?_
  cases hplace : l.setting.place? with
  | none => rfl
  | some place =>
    refine Except.bind_congr fun inputs hinputs => Except.bind_congr fun loaded hload => ?_
    have hopens : l.Opens m ⟨loaded, inputs, some (place.descend m), regions⟩ :=
      .intro heffect hplace hm (by simpa using hremote) (Bool.eq_false_iff.mpr hrepeated)
        (Except.mapError_eq_ok.mp hinputs) hload
    exact congrArg (· >>= _) (h m _ hopens)

/-- Ways to plan the documents of modules that agree on all levels that a level opens give the level
the same outcome. -/
theorem ofDocumentWith_congr :
    ofDocumentWith settings (some run) l.document l.setting =
      ofDocumentWith settings (some run') l.document l.setting := by
  refine Except.bind_congr fun context hcontext => Except.bind_congr fun all _ => ?_
  rcases hregions : registerProviders context l.setting.regions l.document.providers with
    ⟨regions, _ | fault⟩
  · have heffect : l.InEffect context regions := ⟨Except.mapError_eq_ok.mp hcontext, hregions⟩
    have hmodules : l.document.modules.mapM
          (ofModule settings (some run) context l.setting.place? regions) =
        l.document.modules.mapM (ofModule settings (some run') context l.setting.place? regions) :=
      Except.mapM_congr fun m hm => ofModule_congr h heffect hm
    dsimp only
    rw [hmodules]
  · rfl

end Congruence

/-- Counting up to the limit is counting down from it: a run ends with what is planned with the
depth that is left, and with nothing else. -/
theorem ends_iff {depth left : Nat} (hleft : depth + left = settings.maxModuleDepth)
    {r : Except Fault (List Planned)} :
    Ends settings depth l r ↔ r = ofDocumentAt settings left l.document l.setting := by
  -- On the depth that is left. The level and its outcome vary, as the run goes on in other levels.
  induction left generalizing depth l r with
  | zero =>
    have hlast : ¬depth < settings.maxModuleDepth := by omega
    constructor
    · rintro ⟨run, -⟩
      rw [if_neg hlast]
      rfl
    · rintro rfl
      have hends : Ends settings depth l _ :=
        .intro (ofDocumentAt settings 0) fun hdepth => absurd hdepth hlast
      rwa [if_neg hlast] at hends
  | succ left ih =>
    have hdeeper : depth < settings.maxModuleDepth := by omega
    have hleft' : depth + 1 + left = settings.maxModuleDepth := by omega
    constructor
    · rintro ⟨run, h⟩
      rw [if_pos hdeeper]
      exact ofDocumentWith_congr fun m inner hopens => (ih hleft').mp (h hdeeper m inner hopens)
    · rintro rfl
      have hends : Ends settings depth l _ :=
        .intro (ofDocumentAt settings left) fun _ m inner _ => (ih hleft').mpr rfl
      rwa [if_pos hdeeper] at hends

/-- The run over a path ends with an outcome: at once if no document is found there, and else as the
run over its level does. -/
inductive PathEnds (settings : Settings) (tree : FileTree) (directory : List String)
    (path : String) : Except Fault (List Planned) → Prop
  | unloaded {fault : Fault} (h : loadDocument ⟨tree, directory, path⟩ = .error fault) :
      PathEnds settings tree directory path (.error fault)
  | loaded {document : Document} {r : Except Fault (List Planned)}
      (h : loadDocument ⟨tree, directory, path⟩ = .ok document)
      (hends : Ends settings 0
        (.root settings document (some ⟨tree, directory, tree.basePath directory path⟩)) r) :
      PathEnds settings tree directory path r

/-- A run over a path ends with one outcome, and this is the outcome of the run that counts down. -/
theorem pathEnds_iff {tree : FileTree} {directory : List String} {path : String}
    {r : Except Fault (List Planned)} :
    PathEnds settings tree directory path r ↔ r = ofPath settings tree directory path := by
  cases hload : loadDocument ⟨tree, directory, path⟩ with
  | error fault =>
    have hpath : ofPath settings tree directory path = .error fault := by
      rw [ofPath, hload]
      rfl
    rw [hpath]
    constructor
    · rintro (⟨h⟩ | ⟨h, -⟩)
      · rw [Except.error.inj (h.symm.trans hload)]
      · cases h.symm.trans hload
    · rintro rfl
      exact .unloaded hload
  | ok document =>
    rw [ofPath_eq hload]
    constructor
    · rintro (⟨h⟩ | ⟨h, hends⟩)
      · cases h.symm.trans hload
      · obtain rfl := Except.ok.inj (h.symm.trans hload)
        exact (ends_iff (Nat.zero_add _)).mp hends
    · rintro rfl
      exact .loaded hload ((ends_iff (Nat.zero_add _)).mpr rfl)

/-! ## What depth says about a plan -/

/-- Every run over a path ends with one outcome, wherever the sources of modules lead. It is no plan
if a document at the limit has a module. In a plan, the instances are exactly those of the levels at
the end of descents, and they carry the names of the modules on the way, not more than the limit. -/
theorem ofPath_bounded (settings : Settings) (tree : FileTree) (directory : List String)
    (path : String) :
    (∀ r, PathEnds settings tree directory path r ↔ r = ofPath settings tree directory path) ∧
    ∀ document, loadDocument ⟨tree, directory, path⟩ = .ok document →
      let root : Level := .root settings document
        (some ⟨tree, directory, tree.basePath directory path⟩)
      (∀ names around d, Descent root names around d → names.length = settings.maxModuleDepth →
        d.document.modules ≠ [] → ∀ planned, ofPath settings tree directory path ≠ .ok planned) ∧
      ∀ planned, ofPath settings tree directory path = .ok planned →
        (∀ p ∈ planned, ∃ names around d r i, Descent root names around d ∧
          names.length ≤ settings.maxModuleDepth ∧ d.Instantiates settings r i ∧
          p.ComesFrom ⟨names, r.type, r.name, i.key⟩) ∧
        ∀ names around d, Descent root names around d → names.length ≤ settings.maxModuleDepth ∧
          ∀ r i, d.Instantiates settings r i →
            ∃ p ∈ planned, p.ComesFrom ⟨names, r.type, r.name, i.key⟩ := by
  refine ⟨fun r => pathEnds_iff, fun document hload => ?_⟩
  intro root
  have hrun : ofPath settings tree directory path =
      ofDocumentAt settings settings.maxModuleDepth root.document root.setting := ofPath_eq hload
  rw [hrun]
  constructor
  · intro names around d hdescent hlength hmodules planned h
    obtain ⟨left, part, hdepth, hpart, -⟩ := hdescent.planned h
    -- At the limit no depth is left, and a plan with none has no modules.
    obtain rfl : left = 0 := by omega
    rw [ofDocumentAt_eq] at hpart
    exact hmodules (Level.modules_eq_nil hpart rfl)
  · intro planned h
    constructor
    · intro p hp
      obtain ⟨names, around, d, r, i, q, hdescent, hq, rfl⟩ := descent_of_mem h hp
      obtain ⟨left, -, hdepth, -⟩ := hdescent.planned h
      obtain ⟨-, hi, -⟩ := id hq
      exact ⟨names, around, d, r, i, hdescent, by omega, hi, hq.comesFrom names⟩
    · intro names around d hdescent
      obtain ⟨left, part, hdepth, hpart, hmem⟩ := hdescent.planned h
      refine ⟨by omega, fun r i hi => ?_⟩
      rw [ofDocumentAt_eq] at hpart
      obtain ⟨q, hq, hdeploys⟩ := hi.planned hpart
      exact ⟨names.foldr Planned.within q, hmem q hq, hdeploys.comesFrom names⟩

/-- A directory that is its own module. -/
def selfTree : FileTree where
  top := "/w"
  nodes := [(["main.tf"], .file (some "module \"self\" \x7b source = \"./\" \x7d\n"))]

/-- Its document. -/
def selfDocument : Document :=
  { Document.empty with modules := [⟨"self", "./", []⟩] }

/-- Both the directory and its module are loaded as the same document. -/
theorem loadDocument_self {path : String} (hfollow : selfTree.follow? [] path = some []) :
    loadDocument ⟨selfTree, [], path⟩ = .ok selfDocument := by
  let lines : List Config.Line := [⟨"module", ["self"], some ("source", "./")⟩]
  have hnames : selfTree.configurationNames [] = ["main.tf"] := by cbv
  have hlines : ∀ line ∈ lines, line.Plain := by decide
  exact loadDocument_lines hfollow rfl hnames rfl hlines rfl

/-- The run over the nested directory ends with its plan, and that over the directory that is its
own module does not: the module is still there at the limit. -/
theorem nested_self_bounded :
    PathEnds ⟨0, 0, 1, []⟩ nestedTree [] "/w/" (.ok nestedPlan) ∧
      ∀ planned, ofPath ⟨0, 0, 1, []⟩ selfTree [] "/w/" ≠ .ok planned := by
  constructor
  · exact ((ofPath_bounded _ _ _ _).1 _).mpr ofPath_nested.symm
  · let place : Place := ⟨selfTree, [], selfTree.basePath [] "/w/"⟩
    let inner : Place := ⟨selfTree, [], "/w/./"⟩
    have hload : loadDocument ⟨selfTree, [], "/w/"⟩ = .ok selfDocument :=
      loadDocument_self (by cbv)
    have hplace : place.descend ⟨"self", "./", []⟩ = inner := by cbv
    have hinner : loadDocument (place.descend ⟨"self", "./", []⟩) = .ok selfDocument := by
      rw [hplace]
      exact loadDocument_self (by cbv)
    have hopens : (Level.root ⟨0, 0, 1, []⟩ selfDocument (some place)).Opens ⟨"self", "./", []⟩
        ⟨selfDocument, [], some (place.descend ⟨"self", "./", []⟩), []⟩ :=
      .intro ⟨rfl, rfl⟩ rfl (List.mem_singleton.mpr rfl) rfl rfl rfl hinner
    exact ((ofPath_bounded _ _ _ _).2 _ hload).1 _ _ _ (.deeper hopens (.here _)) rfl
      (List.cons_ne_nil _ _)

end Deployment.Plan
