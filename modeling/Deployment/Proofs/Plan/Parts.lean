import Deployment.Plan
import Deployment.Proofs.Config.Lines
import Deployment.Proofs.Document.Distinct
import Deployment.Proofs.Ensures
import Deployment.Proofs.Plan.Address

/-! # The parts of a plan

A plan succeeds exactly if all its parts do: the context of the document, its instances, the regions
of its providers, the plans of the instances, and those of the modules (`ofDocumentWith_eq_ok`). The
plan of a module succeeds exactly if the module may be planned, its inputs have values, its document
is found, and that document is planned with the inputs as its variables (`ofModule_eq_ok`). A plan
of any depth is put together in the same way; the depth only says whether modules are planned at all
(`ofDocumentAt_eq`).
-/

namespace Deployment.Plan

variable {settings : Settings}
  {descend? : Option (Document → Setting → Except Fault (List Planned))}

/-- A planned instance has the origin of its instance, in no module so far. -/
theorem finalize_comesFrom {context : Context} {regions : ProviderRegions} {i : Instance}
    {p : Planned} (h : finalize context regions i = .ok p) :
    p.ComesFrom ⟨[], i.type, i.name, i.key⟩ := by
  obtain ⟨attributes, -, h⟩ := Except.bind_eq_ok.mp h
  obtain ⟨region, -, h⟩ := Except.bind_eq_ok.mp h
  obtain rfl := Except.ok.inj h
  exact ⟨rfl, String.empty_append.symm⟩

/-- The place of a module's document. -/
def Place.descend (place : Place) (m : Module) : Place :=
  { place with path := joinPath place.path m.source }

/-- A document that is found declares every name once. -/
theorem loadDocument_distinct (place : Place) : Ensures (loadDocument place) Document.Distinct :=
  .after fun files => (Document.ofFiles_distinct files).mapError _

/-- A module is planned by planning its document. -/
theorem ofModule_eq_ok {context : Context} {place? : Option Place} {regions : ProviderRegions}
    {m : Module} {planned : List Planned} :
    ofModule settings descend? context place? regions m = .ok planned ↔
      m.isLocal = true ∧ (m.inputs.has countAttribute || m.inputs.has forEachAttribute) = false ∧
        ∃ descend place inputs loaded inner, descend? = some descend ∧ place? = some place ∧
          Draft.evaluateAttributes context (moduleMark ++ m.name) m.inputs = .ok inputs ∧
          loadDocument (place.descend m) = .ok loaded ∧
          descend loaded ⟨inputs, some (place.descend m), regions⟩ = .ok inner ∧
          planned = inner.map (·.within m.name) := by
  unfold ofModule
  constructor
  · intro h
    split at h
    · cases h
    · rename_i hlocal
      split at h
      · cases h
      · rename_i hrepeated
        split at h
        · cases h
        · cases h
        · rename_i descend place
          obtain ⟨inputs, hinputs, h⟩ := Except.bind_eq_ok.mp h
          obtain ⟨loaded, hloaded, h⟩ := Except.bind_eq_ok.mp h
          obtain ⟨inner, hinner, h⟩ := Except.bind_eq_ok.mp h
          obtain rfl := Except.ok.inj h
          exact ⟨by simpa using hlocal, Bool.eq_false_iff.mpr hrepeated, descend, place, inputs,
            loaded, inner, rfl, rfl, Except.mapError_eq_ok.mp hinputs, hloaded, hinner, rfl⟩
  · rintro ⟨hlocal, hrepeated, descend, place, inputs, loaded, inner, rfl, rfl, hinputs, hloaded,
      hinner, rfl⟩
    rw [if_neg (by simp [hlocal]), if_neg (by simp [hrepeated])]
    refine Except.bind_eq_ok.mpr ⟨inputs, Except.mapError_eq_ok.mpr hinputs, ?_⟩
    refine Except.bind_eq_ok.mpr ⟨loaded, hloaded, ?_⟩
    exact Except.bind_eq_ok.mpr ⟨inner, hinner, rfl⟩

/-- A plan is made of the plans of the document's own instances and those of its modules. -/
theorem ofDocumentWith_eq_ok {document : Document} {setting : Setting} {planned : List Planned} :
    ofDocumentWith settings descend? document setting = .ok planned ↔
      ∃ context all regions own nested, document.resolveContext setting.vars = .ok context ∧
        instances settings context document = .ok all ∧
        registerProviders context setting.regions document.providers = (regions, none) ∧
        all.mapM (finalize context regions) = .ok own ∧
        document.modules.mapM (ofModule settings descend? context setting.place? regions) =
          .ok nested ∧
        planned = own ++ nested.flatten := by
  constructor
  · intro h
    obtain ⟨context, hcontext, h⟩ := Except.bind_eq_ok.mp h
    obtain ⟨all, hall, h⟩ := Except.bind_eq_ok.mp h
    split at h
    · cases h
    · rename_i regions hregions
      obtain ⟨own, hown, h⟩ := Except.bind_eq_ok.mp h
      obtain ⟨nested, hnested, h⟩ := Except.bind_eq_ok.mp h
      obtain rfl := Except.ok.inj h
      exact ⟨context, all, regions, own, nested, Except.mapError_eq_ok.mp hcontext,
        Except.mapError_eq_ok.mp hall, hregions, hown, hnested, rfl⟩
  · rintro ⟨context, all, regions, own, nested, hcontext, hall, hregions, hown, hnested, rfl⟩
    refine Except.bind_eq_ok.mpr ⟨context, Except.mapError_eq_ok.mpr hcontext, ?_⟩
    refine Except.bind_eq_ok.mpr ⟨all, Except.mapError_eq_ok.mpr hall, ?_⟩
    rw [hregions]
    exact Except.bind_eq_ok.mpr ⟨own, hown, Except.bind_eq_ok.mpr ⟨nested, hnested, rfl⟩⟩

/-- The way to plan the documents of modules that may be nested to a given depth. -/
def descent? (settings : Settings) :
    Nat → Option (Document → Setting → Except Fault (List Planned))
  | 0 => none
  | depth + 1 => some (ofDocumentAt settings depth)

/-- A plan of some depth is that of one level, with the plans of a lesser depth below it. -/
theorem ofDocumentAt_eq (settings : Settings) (depth : Nat) :
    ofDocumentAt settings depth = ofDocumentWith settings (descent? settings depth) := by
  cases depth <;> rfl

/-- The plan of a path is that of the document at its end. -/
theorem ofPath_eq {tree : FileTree} {directory : List String} {path : String} {document : Document}
    (hload : loadDocument ⟨tree, directory, path⟩ = .ok document) :
    ofPath settings tree directory path = ofDocumentAt settings settings.maxModuleDepth document
      ⟨settings.vars, some ⟨tree, directory, tree.basePath directory path⟩, []⟩ := by
  rw [ofPath, hload]
  rfl

/-! ## A module in a directory -/

open Config (Line)

/-- A directory with a single configuration file, which is written in lines. -/
theorem loadDocument_lines {place : Place} {names : List String} {name : String}
    {lines : List Line} {document : Document}
    (hfollow : place.tree.follow? place.directory place.path = some names)
    (hdirectory : place.tree.node? names = some .directory)
    (hnames : place.tree.configurationNames names = [name])
    (hfile : place.tree.node? (names ++ [name]) =
      some (.file (some (String.ofList (lines.foldr Line.write [])))))
    (hlines : ∀ line ∈ lines, line.Plain)
    (hdocument : Document.ofFiles
      [⟨some (place.tree.absolute (names ++ [name])), lines.map Line.block⟩] = .ok document) :
    loadDocument place = .ok document := by
  have hread : place.tree.loadFile (names ++ [name]) =
      .ok ⟨some (place.tree.absolute (names ++ [name])), lines.map Line.block⟩ := by
    rw [FileTree.loadFile, hfile]
    dsimp only
    rw [Config.Structure.parse?_lines hlines]
  have hload : place.tree.load place.directory place.path =
      .ok [⟨some (place.tree.absolute (names ++ [name])), lines.map Line.block⟩] := by
    rw [FileTree.load, hfollow]
    dsimp only
    rw [hdirectory, hnames]
    dsimp only
    rw [List.mapM_cons, hread]
    rfl
  exact Except.bind_eq_ok.mpr ⟨_, Except.mapError_eq_ok.mpr hload,
    Except.mapError_eq_ok.mpr hdocument⟩

/-- A directory with a module in a directory below it. -/
def nestedTree : FileTree where
  top := "/w"
  nodes := [
    (["main.tf"], .file (some ("provider \"vm\" \x7b region = \"us-east-1\" \x7d\n" ++
      "module \"net\" \x7b source = \"./n\" \x7d\n"))),
    (["n"], .directory),
    (["n", "main.tf"], .file (some "resource \"vm_disk\" \"main\" \x7b \x7d\n"))]

/-- The document of the directory. -/
def nestedOuter : Document :=
  { Document.empty with
    modules := [⟨"net", "./n", []⟩]
    providers := [⟨"vm", none, [("region", .text "us-east-1")]⟩] }

/-- The document of its module. -/
def nestedInner : Document :=
  { Document.empty with resources := [⟨"vm_disk", "main", none, []⟩] }

/-- What is written in the directory is the outer document. -/
theorem loadDocument_nestedOuter : loadDocument ⟨nestedTree, [], "/w/"⟩ = .ok nestedOuter := by
  let lines : List Line := [
    ⟨"provider", ["vm"], some ("region", "us-east-1")⟩,
    ⟨"module", ["net"], some ("source", "./n")⟩]
  have hfollow : nestedTree.follow? [] "/w/" = some [] := by cbv
  have hnames : nestedTree.configurationNames [] = ["main.tf"] := by cbv
  have hlines : ∀ line ∈ lines, line.Plain := by decide
  exact loadDocument_lines hfollow rfl hnames rfl hlines rfl

/-- What is written below it is the inner one. -/
theorem loadDocument_nestedInner :
    loadDocument (Place.descend ⟨nestedTree, [], "/w/"⟩ ⟨"net", "./n", []⟩) = .ok nestedInner := by
  have hplace : Place.descend ⟨nestedTree, [], "/w/"⟩ ⟨"net", "./n", []⟩ =
      ⟨nestedTree, [], "/w/./n"⟩ := by cbv
  let lines : List Line := [⟨"resource", ["vm_disk", "main"], none⟩]
  have hfollow : nestedTree.follow? [] "/w/./n" = some ["n"] := by cbv
  have hnames : nestedTree.configurationNames ["n"] = ["main.tf"] := by cbv
  have hlines : ∀ line ∈ lines, line.Plain := by decide
  rw [hplace]
  exact loadDocument_lines hfollow rfl hnames rfl hlines rfl

/-- The disk of the module, in the region around it. -/
def nestedPlan : List Planned :=
  [⟨"module.net.main", "vm_disk", .number 0, [], "us-east-1"⟩]

/-- Limits that allow a module allow this one. -/
theorem ofPath_nested {maxCount maxForEach depth : Nat} :
    ofPath ⟨maxCount, maxForEach, depth + 1, []⟩ nestedTree [] "/w/" = .ok nestedPlan := by
  have hbase : nestedTree.basePath [] "/w/" = "/w/" := by cbv
  have hinner (place? : Option Place) : ofDocumentAt ⟨maxCount, maxForEach, depth + 1, []⟩ depth
      nestedInner ⟨[], place?, [("vm", "us-east-1")]⟩ =
        .ok [⟨"main", "vm_disk", .number 0, [], "us-east-1"⟩] := by
    rw [ofDocumentAt_eq]
    exact ofDocumentWith_eq_ok.mpr ⟨⟨[], []⟩, [⟨"vm_disk", "main", none, none, []⟩], _, _, [], rfl,
      rfl, rfl, by cbv, rfl, rfl⟩
  have hregions : registerProviders ⟨[], []⟩ [] nestedOuter.providers =
      ([("vm", "us-east-1")], none) := by cbv
  have hmodule : ofModule ⟨maxCount, maxForEach, depth + 1, []⟩
      (descent? ⟨maxCount, maxForEach, depth + 1, []⟩ (depth + 1)) ⟨[], []⟩
      (some ⟨nestedTree, [], "/w/"⟩) [("vm", "us-east-1")] ⟨"net", "./n", []⟩ =
        .ok nestedPlan :=
    ofModule_eq_ok.mpr ⟨rfl, rfl, _, _, [], nestedInner, _, rfl, rfl, rfl, loadDocument_nestedInner,
      hinner _, rfl⟩
  rw [ofPath_eq loadDocument_nestedOuter, hbase, ofDocumentAt_eq]
  exact ofDocumentWith_eq_ok.mpr ⟨⟨[], []⟩, [], _, [], _, rfl, rfl, hregions, rfl,
    Except.mapM_eq_ok.mpr (.cons hmodule .nil), rfl⟩

end Deployment.Plan
