import Deployment.Proofs.Plan.Parts

/-! # Limits only refuse

A limit stands in a single comparison, and what is on the other side of it is refused as a whole.
So whatever is planned under some limits is planned under looser ones, with the same result: a
computation under the first limits is *kept* under the second ones, stage by stage
(`instances_kept`) and level by level of modules (`ofDocumentAt_kept`). The depth is not compared
with a number but counted down, and looser limits start the count higher up; the induction is on the
smaller depth, for every depth that is not smaller.
-/

namespace Deployment

/-- The same variables, and no limit is tighter in the second settings. -/
structure Settings.Loosened (settings looser : Settings) : Prop where
  maxCount : settings.maxCount ≤ looser.maxCount
  maxForEach : settings.maxForEach ≤ looser.maxForEach
  maxModuleDepth : settings.maxModuleDepth ≤ looser.maxModuleDepth
  vars : settings.vars = looser.vars

/-- Whatever the first computation returns, the second one returns too. -/
def Kept {ε α : Type} (r r' : Except ε α) : Prop :=
  ∀ a, r = .ok a → r' = .ok a

namespace Kept

variable {ε ε' α β : Type} {r r' : Except ε α}

/-- A computation that no limit concerns is kept. -/
theorem refl (r : Except ε α) : Kept r r :=
  fun _ h => h

/-- A failure is kept by anything, as it returns nothing. -/
theorem error (e : ε) (r : Except ε α) : Kept (.error e) r := by
  intro a h
  cases h

/-- A sequence is kept if its steps are. -/
theorem bind {f f' : α → Except ε β} (h : Kept r r') (hf : ∀ a, Kept (f a) (f' a)) :
    Kept (r >>= f) (r' >>= f') := by
  intro b hb
  obtain ⟨a, ha, hb⟩ := Except.bind_eq_ok.mp hb
  exact Except.bind_eq_ok.mpr ⟨a, h a ha, hf a b hb⟩

/-- A limit that is passed does not matter, and no looser one does. -/
theorem limited {n limit looser : Nat} (hlimit : limit ≤ looser) (e e' : ε) (h : Kept r r') :
    Kept (if limit < n then .error e else r) (if looser < n then .error e' else r') := by
  by_cases hn : limit < n
  · rw [if_pos hn]
    exact .error e _
  · rw [if_neg hn, if_neg (by omega)]
    exact h

/-- Computations for the members of a list are kept if each of them is. -/
theorem mapM {f f' : α → Except ε β} (h : ∀ x, Kept (f x) (f' x)) (xs : List α) :
    Kept (xs.mapM f) (xs.mapM f') := by
  intro ys hys
  exact Except.mapM_eq_ok.mpr ((Except.mapM_eq_ok.mp hys).imp fun x y => h x y)

end Kept

/-! ## Instances -/

namespace Instance

variable {context : Context} {limit looser : Nat}

/-- The count of a resource is compared with the limit once, and everything around the comparison is
the same. -/
theorem expandCount_kept (h : limit ≤ looser) (r : Resource) :
    Kept (expandCount context limit r) (expandCount context looser r) := by
  unfold expandCount
  cases r.attributes.get? countAttribute with
  | none => exact .refl _
  | some count =>
    dsimp only
    by_cases hforEach : r.attributes.has forEachAttribute
    · rw [if_pos hforEach]
      exact .error _ _
    · rw [if_neg hforEach, if_neg hforEach]
      refine .bind (.refl _) fun v => ?_
      cases wholeCount? v with
      | none => exact .refl _
      | some n => exact .limited h _ _ (.refl _)

/-- The counts of all resources are expanded as before. -/
theorem expandCounts_kept (h : limit ≤ looser) (resources : List Resource) :
    Kept (expandCounts context limit resources) (expandCounts context looser resources) := by
  induction resources with
  | nil => exact .refl _
  | cons r rest ih =>
    rw [expandCounts, expandCounts]
    exact .bind (expandCount_kept h r) fun _ => .bind ih fun _ => .refl _

/-- The number of keys is compared with the limit once, too. -/
theorem expandForEach_kept (h : limit ≤ looser) (i : Instance) :
    Kept (expandForEach context limit i) (expandForEach context looser i) := by
  unfold expandForEach
  cases i.attributes.get? forEachAttribute with
  | none => exact .refl _
  | some forEach =>
    refine .bind (.refl _) fun v => ?_
    cases iterated v with
    | error reason => exact .refl _
    | ok entries => exact .limited h _ _ (.refl _)

/-- All instances are keyed as before. -/
theorem expandForEachs_kept (h : limit ≤ looser) (instances : List Instance) :
    Kept (expandForEachs context limit instances) (expandForEachs context looser instances) := by
  induction instances with
  | nil => exact .refl _
  | cons i rest ih =>
    rw [expandForEachs, expandForEachs]
    by_cases hkey : i.key.isNone
    · rw [if_pos hkey, if_pos hkey]
      exact .bind (expandForEach_kept h i) fun _ => .bind ih fun _ => .refl _
    · rw [if_neg hkey, if_neg hkey]
      exact .bind (.refl _) fun _ => .bind ih fun _ => .refl _

end Instance

/-! ## Plans -/

namespace Plan

variable {settings looser : Settings}
  {descend? descend'? : Option (Document → Setting → Except Fault (List Planned))}

/-- Under looser limits a document has the same instances. -/
theorem instances_kept (h : settings.Loosened looser) (context : Context) (document : Document) :
    Kept (instances settings context document) (instances looser context document) :=
  .bind (.refl _) fun _ =>
    .bind (Instance.expandCounts_kept h.maxCount _) fun _ =>
      Instance.expandForEachs_kept h.maxForEach _

/-- Where modules are planned in the first way, they are planned in the second way with the same
results. -/
def DescentKept (descend? descend'? : Option (Document → Setting → Except Fault (List Planned))) :
    Prop :=
  ∀ descend, descend? = some descend → ∃ descend', descend'? = some descend' ∧
    ∀ document setting, Kept (descend document setting) (descend' document setting)

/-- A module is planned as before if documents are, at the depth below it. -/
theorem ofModule_kept (hdescent : DescentKept descend? descend'?) (context : Context)
    (place? : Option Place) (regions : ProviderRegions) (m : Module) :
    Kept (ofModule settings descend? context place? regions m)
      (ofModule looser descend'? context place? regions m) := by
  intro planned h
  obtain ⟨hlocal, hsingle, descend, place, inputs, loaded, inner, hdescend, hplace, hinputs,
    hloaded, hinner, rfl⟩ := ofModule_eq_ok.mp h
  obtain ⟨descend', hdescend', hkept⟩ := hdescent descend hdescend
  exact ofModule_eq_ok.mpr ⟨hlocal, hsingle, descend', place, inputs, loaded, inner, hdescend',
    hplace, hinputs, hloaded, hkept _ _ _ hinner, rfl⟩

/-- One level of modules: all parts of the plan are kept. -/
theorem ofDocumentWith_kept (h : settings.Loosened looser)
    (hdescent : DescentKept descend? descend'?) (document : Document) (setting : Setting) :
    Kept (ofDocumentWith settings descend? document setting)
      (ofDocumentWith looser descend'? document setting) := by
  intro planned hplanned
  obtain ⟨context, all, regions, own, nested, hcontext, hall, hregions, hown, hnested, rfl⟩ :=
    ofDocumentWith_eq_ok.mp hplanned
  exact ofDocumentWith_eq_ok.mpr ⟨context, all, regions, own, nested, hcontext,
    instances_kept h context document all hall, hregions, hown,
    Kept.mapM (ofModule_kept hdescent context setting.place? regions) _ nested hnested, rfl⟩

/-- All levels, if there may be at least as many of them. -/
theorem ofDocumentAt_kept (h : settings.Loosened looser) {depth depth' : Nat}
    (hdepth : depth ≤ depth') (document : Document) (setting : Setting) :
    Kept (ofDocumentAt settings depth document setting)
      (ofDocumentAt looser depth' document setting) := by
  -- By induction on the smaller depth. Where it is used up no module was planned, so there was
  -- none.
  induction depth generalizing depth' document setting with
  | zero =>
    rw [ofDocumentAt_eq, ofDocumentAt_eq]
    refine ofDocumentWith_kept h ?_ document setting
    intro descend hdescend
    cases hdescend
  | succ depth ih =>
    obtain ⟨k, rfl⟩ : ∃ k, depth' = k + 1 := ⟨depth' - 1, by omega⟩
    rw [ofDocumentAt_eq, ofDocumentAt_eq]
    refine ofDocumentWith_kept h ?_ document setting
    intro descend hdescend
    obtain rfl := Option.some.inj hdescend
    exact ⟨ofDocumentAt looser k, rfl, ih (Nat.le_of_succ_le_succ hdepth)⟩

/-- What is planned under some limits is planned under looser ones, and it is the same: for every
document, and for every path with all local modules behind it. -/
theorem planned_of_loosened {settings looser : Settings} (h : settings.Loosened looser) :
    (∀ document planned, ofDocument settings document = .ok planned →
      ofDocument looser document = .ok planned) ∧
    ∀ tree directory path planned, ofPath settings tree directory path = .ok planned →
      ofPath looser tree directory path = .ok planned := by
  have hkept (document : Document) (place? : Option Place) :
      Kept (ofDocumentAt settings settings.maxModuleDepth document ⟨settings.vars, place?, []⟩)
        (ofDocumentAt looser looser.maxModuleDepth document ⟨looser.vars, place?, []⟩) := by
    rw [h.vars]
    exact ofDocumentAt_kept h h.maxModuleDepth document _
  constructor
  · intro document
    exact hkept document none
  · intro tree directory path
    exact Kept.bind (.refl _) fun document => hkept document (some _)

/-- A depth of one is enough for the nested directory, and more changes nothing. -/
theorem nested_of_loosened :
    Settings.Loosened ⟨0, 0, 1, []⟩ ⟨10, 10, 2, []⟩ ∧
      ofPath ⟨0, 0, 1, []⟩ nestedTree [] "/w/" = .ok nestedPlan ∧
      ofPath ⟨10, 10, 2, []⟩ nestedTree [] "/w/" = .ok nestedPlan := by
  have hloosened : Settings.Loosened ⟨0, 0, 1, []⟩ ⟨10, 10, 2, []⟩ :=
    ⟨by decide, by decide, by decide, rfl⟩
  have hplanned : ofPath ⟨0, 0, 1, []⟩ nestedTree [] "/w/" = .ok nestedPlan := ofPath_nested
  exact ⟨hloosened, hplanned, (planned_of_loosened hloosened).2 _ _ _ _ hplanned⟩

end Plan

end Deployment
