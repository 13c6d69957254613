import Deployment.Document.Declaration
import Deployment.Document.Issue
import Deployment.Document.Source

/-! # Documents from files

`Document.ofFiles` gathers the declarations of files in order. Every name may be declared once; a
second declaration is an issue and otherwise ignored. There is a document only without issues, and
neither document nor issues are there once the default of a variable has overflowed.
-/

namespace Deployment

open Config (Block Structure)

/-- The declarations gathered so far and the issues met so far. -/
structure Gathering where
  document : Document
  issues : List Issue
  /-- Whether the conversion of a default has overflowed. -/
  overflowed : Bool

namespace Gathering

/-- Nothing gathered yet. -/
def empty : Gathering := ⟨.empty, [], false⟩

/-- Adds issues. -/
def report (g : Gathering) (issues : List Issue) : Gathering :=
  { g with issues := g.issues ++ issues }

/-- Adds a resource. Its dynamic blocks are issues. -/
def addResource (g : Gathering) (type name : String) (body : List Structure) : Gathering :=
  let resource := Resource.ofBody type name body
  if g.document.resources.any (·.address == resource.address) then
    g.report [.duplicateResource resource.address]
  else
    { g with document.resources := g.document.resources ++ [resource] }.report
      ((dynamicBlocks body).map fun _ => .dynamicBlock resource.address)

/-- Adds a variable. A default that is no plain data is an issue. -/
def addVariable (g : Gathering) (name : String) (body : List Structure) : Gathering :=
  if g.document.vars.any (·.name == name) then g.report [.duplicateVariable name]
  else
    let g := { g with document.vars := g.document.vars ++ [Variable.ofBody name body] }
    match defaultFault? body with
    | none => g
    | some (.notLiteral expr) => g.report [.defaultNotLiteral name expr]
    | some .overflow => { g with overflowed := true }

/-- Adds a local value. -/
def addLocal (g : Gathering) (name : String) (t : Config.Term) : Gathering :=
  if g.document.locals.has name then g.report [.duplicateLocal name]
  else { g with document.locals := g.document.locals ++ [(name, t.toDraft)] }

/-- Adds a module. -/
def addModule (g : Gathering) (name : String) (body : List Structure) : Gathering :=
  if g.document.modules.any (·.name == name) then g.report [.duplicateModule name]
  else
    match Module.ofBody? name body with
    | some module => { g with document.modules := g.document.modules ++ [module] }
    | none => g.report [.moduleSourceMissing name]

/-- Adds a provider. -/
def addProvider (g : Gathering) (name : String) (body : List Structure) : Gathering :=
  let provider := Provider.ofBody name body
  if g.document.providers.any (·.key == provider.key) then
    g.report [.duplicateProvider provider.key]
  else { g with document.providers := g.document.providers ++ [provider] }

/-- The block types without meaning for what is deployed. -/
def skippedTypes : List String :=
  ["data", "output", "terraform", "moved", "import", "check", "removed"]

/-- The number of labels that the blocks of a type take. -/
def expectedLabels? : String → Option Nat
  | "resource" => some 2
  | "variable" | "module" | "provider" => some 1
  | "locals" => some 0
  | _ => none

/-- The issue with a block whose type or number of labels has no meaning. -/
def blockIssue? (file : String) (block : Block) : Option Issue :=
  if skippedTypes.contains block.type then none
  else
    match expectedLabels? block.type with
    | some expected => some (.labelMismatch file block.type expected block.labels.length)
    | none => some (.unknownBlockType file block.type)

/-- Adds what a block at the top of a file declares. -/
def addBlock (g : Gathering) (block : Located Block) : Gathering :=
  let ⟨type, labels, body⟩ := block.item
  match type, labels with
  | "resource", [type, name] => g.addResource type name body
  | "variable", [name] => g.addVariable name body
  | "module", [name] => g.addModule name body
  | "provider", [name] => g.addProvider name body
  | "locals", [] => (Config.attributesOf body).foldl (fun g (name, t) => g.addLocal name t) g
  | _, _ => g.report (blockIssue? block.file block.item).toList

/-- What is gathered from files. Attributes at the top of files are reported before everything that
blocks give rise to. -/
def ofFiles (files : List SourceFile) : Gathering :=
  let attributes := (rootAttributes files).map fun a => Issue.rootAttribute a.file a.item.1
  (rootBlocks files).foldl addBlock (empty.report attributes)

end Gathering

/-- The document that files declare, or the issues with their declarations: first those with
attributes at the top of a file, then those with blocks. -/
def Document.ofFiles (files : List SourceFile) : Except DocumentError Document :=
  let gathered := Gathering.ofFiles files
  -- An overflow ends the program where it is met: issues met before are not reported either.
  if gathered.overflowed then .error .overflow
  else
    match gathered.issues with
    | [] => .ok gathered.document
    | first :: others => .error (.issues ⟨first, others⟩)

end Deployment
