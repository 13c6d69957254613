import Deployment.Draft

/-! # Configuration documents

A document is the content of the configuration files of one directory: resources, variables, local
values, modules and providers, in the order of declaration. Attribute values are drafts.
-/

namespace Deployment

/-- A declared resource. Nested blocks are attributes too: lists of maps under the block's type. -/
structure Resource where
  type : String
  name : String
  /-- The provider configuration that the resource asks for, such as `aws.west`. -/
  provider : Option String
  attributes : Entries Draft
deriving Inhabited

/-- The address of a resource: type and name. -/
def Resource.address (r : Resource) : String :=
  r.type ++ "." ++ r.name

/-- A declared variable. -/
structure Variable where
  name : String
  default : Option Value
  type : Option String
  description : Option String

/-- A module that the document uses. Its inputs are the values of the module's variables. -/
structure Module where
  name : String
  source : String
  inputs : Entries Draft

/-- Whether the source of a module is in the file system. -/
def Module.isLocal (m : Module) : Bool :=
  ['.', '/'].isPrefixOf m.source.toList || ['.', '.', '/'].isPrefixOf m.source.toList

/-- A provider configuration. -/
structure Provider where
  name : String
  aliasName : Option String
  attributes : Entries Draft

/-- The key by which resources refer to a provider configuration: `aws` or `aws.west`. -/
def Provider.key (p : Provider) : String :=
  match p.aliasName with
  | some aliasName => p.name ++ "." ++ aliasName
  | none => p.name

/-- The attribute that repeats a resource a number of times. -/
def countAttribute : String := "count"

/-- The attribute that repeats a resource for every entry of a map or element of a set. -/
def forEachAttribute : String := "for_each"

/-- The declarations of a directory. -/
structure Document where
  resources : List Resource
  vars : List Variable
  locals : Entries Draft
  modules : List Module
  providers : List Provider

/-- A document without declarations. -/
def Document.empty : Document := ⟨[], [], [], [], []⟩

end Deployment
