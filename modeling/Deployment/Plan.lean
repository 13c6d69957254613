import Deployment.Context.Resolution
import Deployment.Document.Assembly
import Deployment.Instance.Count
import Deployment.Instance.ForEach
import Deployment.Plan.Planned
import Deployment.Plan.Regions
import Deployment.Resource.Gate
import Deployment.Settings

/-! # Plans

The plan of a configuration lists all instances that it deploys. Every stage works on the complete
output of the stage before: the context of variables and local values, the resources that exist,
the instances by number, the instances by key, and their attributes and regions. The local modules
of the document follow, each with its inputs as variables and with the regions of the providers
around it.
-/

namespace Deployment

namespace Plan

/-- The directory from which a document's modules are found. -/
structure Place where
  tree : FileTree
  /-- The directory in which relative paths start. -/
  directory : List String
  path : String

/-- What planning needs to know about where a document stands. -/
structure Setting where
  vars : Entries Value
  place? : Option Place
  regions : ProviderRegions

/-- The instances of a document's own resources. -/
def instances (settings : Settings) (context : Context) (document : Document) :
    Except Failure (List Instance) := do
  let resources ← Resource.resolveAll context document.resources
  let counted ← Instance.expandCounts context settings.maxCount resources
  Instance.expandForEachs context settings.maxForEach counted

/-- The plan of one instance. -/
def finalize (context : Context) (regions : ProviderRegions) (i : Instance) :
    Except Fault Planned := do
  let attributes ← (Draft.evaluateAttributes context i.address i.attributes).mapError .evaluation
  let region ← (resolveRegion regions i.address i.type i.provider attributes).mapError .region
  .ok ⟨i.logicalId, i.type, i.key.getD (.number 0), attributes, region⟩

/-- The document at the end of a path. -/
def loadDocument (place : Place) : Except Fault Document := do
  let files ← (place.tree.load place.directory place.path).mapError .load
  (Document.ofFiles files).mapError .document

/-- The plan of a module. `descend` plans the module's document; without it the module is nested too
deeply. -/
def ofModule (settings : Settings)
    (descend? : Option (Document → Setting → Except Fault (List Planned)))
    (context : Context) (place? : Option Place) (regions : ProviderRegions) (m : Module) :
    Except Fault (List Planned) := do
  if !m.isLocal then .error (.module m.name (.remoteSource m.source))
  else if m.inputs.has countAttribute || m.inputs.has forEachAttribute then
    .error (.module m.name .repeated)
  else
    -- The depth is checked before the place, so a document without files reports it first.
    match descend?, place? with
    | none, _ => .error (.module m.name (.tooDeep settings.maxModuleDepth))
    | _, none => .error (.module m.name .noDirectory)
    | some descend, some place =>
      let inputs ← (Draft.evaluateAttributes context (moduleMark ++ m.name) m.inputs).mapError
        .evaluation
      let place : Place := { place with path := joinPath place.path m.source }
      let document ← loadDocument place
      let planned ← descend document ⟨inputs, some place, regions⟩
      .ok (planned.map (·.within m.name))

/-- The plan of a document, with the way to plan the documents of its modules. -/
def ofDocumentWith (settings : Settings)
    (descend? : Option (Document → Setting → Except Fault (List Planned)))
    (document : Document) (setting : Setting) : Except Fault (List Planned) := do
  let context ← (document.resolveContext setting.vars).mapError .evaluation
  let instances ← (instances settings context document).mapError .evaluation
  match registerProviders context setting.regions document.providers with
  | (_, some fault) => .error fault
  | (regions, none) =>
    -- Modules come last: their plans follow those of the document's own instances.
    let own ← instances.mapM (finalize context regions)
    let nested ← document.modules.mapM
      (ofModule settings descend? context setting.place? regions)
    .ok (own ++ nested.flatten)

/-- The plan of a document whose modules may be nested to a given depth. -/
def ofDocumentAt (settings : Settings) : Nat → Document → Setting → Except Fault (List Planned)
  | 0, document, setting => ofDocumentWith settings none document setting
  | depth + 1, document, setting =>
    ofDocumentWith settings (some (ofDocumentAt settings depth)) document setting

/-- The plan of a document that comes from no file. -/
def ofDocument (settings : Settings) (document : Document) : Except Fault (List Planned) :=
  ofDocumentAt settings settings.maxModuleDepth document ⟨settings.vars, none, []⟩

/-- The plan of the configuration file or directory at the end of a path. -/
def ofPath (settings : Settings) (tree : FileTree) (directory : List String) (path : String) :
    Except Fault (List Planned) := do
  let document ← loadDocument ⟨tree, directory, path⟩
  let place : Place := ⟨tree, directory, tree.basePath directory path⟩
  ofDocumentAt settings settings.maxModuleDepth document ⟨settings.vars, some place, []⟩

end Plan

end Deployment
