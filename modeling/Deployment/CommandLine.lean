import Deployment.CommandLine.Invocation
import Deployment.Plan
import Deployment.Report.Json
import Deployment.Report.Yaml

/-! # The command line

`CommandLine.run` is the whole program as a function of the files, the working directory, the
environment and the arguments.
-/

namespace Deployment.CommandLine

/-- How a run ends. -/
structure Outcome where
  exit : Nat
  output : String
  /-- Messages for the user. -/
  diagnostics : String

/-- A run that succeeds. -/
def Outcome.success (output : String) : Outcome := ⟨0, output, ""⟩

/-- A run that fails. -/
def Outcome.failure (message : String) : Outcome := ⟨1, "", message ++ "\n"⟩

/-- A run that an overflow ends. -/
def Outcome.overflow : Outcome := ⟨101, "", Config.ConversionError.overflow.message ++ "\n"⟩

/-- A run whose arguments make no sense. -/
def Outcome.misuse : Outcome := ⟨2, "", "error: invalid arguments\n"⟩

/-- Goes to one directory after the other. -/
def enterDirectories (tree : FileTree) (directory : List String) :
    List String → Except String (List String)
  | [] => .ok directory
  | path :: rest =>
    match tree.follow? directory path with
    | none => .error s!"Failed to resolve path for -C/--directory {path}"
    | some names =>
      if tree.isDirectory names then enterDirectories tree names rest
      else .error s!"Failed to set work directory to {tree.absolute names}"

/-- Adds the variables of files to settings, in order. -/
def addFiles (tree : FileTree) (directory : List String) (settings : Settings) :
    List String → Except SettingsError Settings
  | [] => .ok settings
  | path :: rest => do
    let vars ← Settings.loadVariables tree directory path
    addFiles tree directory (settings.withVariables vars) rest

/-- Adds assigned variables to settings, in order. -/
def addAssignments (settings : Settings) : List String → Except SettingsError Settings
  | [] => .ok settings
  | text :: rest => do
    let (name, v) ← Settings.parseAssignment text
    addAssignments (settings.withVariable name v) rest

/-- A plan in an output format. -/
def writePlan (plan : List Planned) : OutputFormat → String
  | .json => (Report.ofPlan plan).toJson .spread
  | .yaml => (Report.ofPlan plan).toYaml

/-! ## Listings -/

/-- Lines of a listing at a depth of indentation, each with a comma. -/
def listing (depth : Nat) (items : List String) : String :=
  String.join (items.map fun item =>
    String.ofList (List.replicate (4 * depth) ' ') ++ item ++ ",\n")

/-- A field of a listing whose items are between brackets. -/
def listingField (name opening closing : String) (items : String) : String :=
  if items.isEmpty then s!"    {name}: {opening}{closing},\n"
  else s!"    {name}: {opening}\n{items}    {closing},\n"

/-- Text between quotes in a listing. -/
def listed (s : String) : String :=
  "\"" ++ String.ofList (s.toList.flatMap IndexKey.escapeChar) ++ "\""

/-- The files that were read and what is at their top. -/
def listSources (files : List SourceFile) : String :=
  let sources := files.map fun file =>
    match file.name? with
    | some name => s!"        Some(\n            {listed name},\n        ),\n"
    | none => "        None,\n"
  "HclDocuments \x7b\n" ++ listingField "sources" "[" "]" (String.join sources) ++
    listingField "root_attributes" "[" "]"
      (listing 2 ((rootAttributes files).map fun a => listed a.item.1)) ++
    listingField "root_blocks" "[" "]"
      (listing 2 ((rootBlocks files).map fun b => listed b.item.type)) ++ "\x7d\n"

/-- What a document declares. -/
def listDocument (document : Document) : String :=
  "Document \x7b\n" ++
    listingField "resources" "[" "]" (listing 2 (document.resources.map (listed ·.address))) ++
    listingField "variables" "\x7b" "\x7d" (listing 2 (document.vars.map (listed ·.name))) ++
    listingField "locals" "\x7b" "\x7d" (listing 2 (document.locals.map (listed ·.1))) ++
    listingField "modules" "[" "]" (listing 2 (document.modules.map (listed ·.name))) ++
    listingField "providers" "[" "]" (listing 2 (document.providers.map (listed ·.key))) ++
    "\x7d\n"

/-! ## Running -/

/-- What keeps a command from its output. -/
inductive Interruption
  /-- A failure that is told. -/
  | failure (message : String)
  | overflow

/-- How settings that cannot be read end a run. -/
def Interruption.ofSettings : SettingsError → Interruption
  | .overflow => .overflow
  | e => .failure e.message

/-- How a configuration that cannot be planned ends a run. -/
def Interruption.ofFault : Fault → Interruption
  | .document .overflow => .overflow
  | e => .failure e.message

/-- Carries out a command in a directory. -/
def perform (tree : FileTree) (directory : List String) : Command → Except Interruption String
  | .evaluate path limits variableFiles assignments format => do
    let settings ← (addFiles tree directory limits variableFiles).mapError .ofSettings
    let settings ← (addAssignments settings assignments).mapError .ofSettings
    let plan ← (Plan.ofPath settings tree directory path).mapError .ofFault
    .ok (writePlan plan format)
  | .showSources path => do
    let files ← (tree.load directory path).mapError fun e => .failure e.message
    .ok (listSources files)
  | .showDocument path => do
    let document ← (Plan.loadDocument ⟨tree, directory, path⟩).mapError .ofFault
    .ok (listDocument document)

/-- The outcome of a run with all that it depends on. -/
def run (tree : FileTree) (directory : List String) (environment : Entries String)
    (args : List String) : Outcome :=
  match Invocation.parse? environment args with
  | none => .misuse
  | some invocation =>
    let result : Except Interruption String := do
      let directory ← (enterDirectories tree directory invocation.directories).mapError .failure
      perform tree directory invocation.command
    match result with
    | .ok output => .success output
    | .error (.failure message) => .failure message
    | .error .overflow => .overflow

end Deployment.CommandLine
