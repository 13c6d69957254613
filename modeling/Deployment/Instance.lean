import Deployment.Document
import Deployment.Draft.Binding

/-! # Instances

An instance is one of the things that a resource stands for. Instances of a repeated resource have
a key, a number or a text, by which their addresses differ: `web[0]`, `web["prod"]`.
-/

namespace Deployment

/-- The position of an instance within its resource. -/
inductive IndexKey
  | number (n : Nat)
  | text (s : String)
deriving DecidableEq, Repr

/-- How a character of a text key is written between quotes. -/
def IndexKey.escapeChar : Char → List Char
  | '\\' => ['\\', '\\']
  | '"' => ['\\', '"']
  | c => [c]

/-- How a key is written: `0` or `"prod"`. -/
def IndexKey.render : IndexKey → String
  | .number n => toString n
  | .text s => "\"" ++ String.ofList (s.toList.flatMap escapeChar) ++ "\""

/-- One instance of a resource. -/
structure Instance where
  type : String
  name : String
  provider : Option String
  /-- Resources that are not repeated have one instance without a key. -/
  key : Option IndexKey
  attributes : Entries Draft

namespace Instance

/-- The only instance of a resource that is not repeated. -/
def ofResource (r : Resource) : Instance :=
  ⟨r.type, r.name, r.provider, none, r.attributes⟩

/-- A name with a key: `web`, `web[0]` or `web["prod"]`. -/
def identifier (name : String) (key : Option IndexKey) : String :=
  match key with
  | some key => name ++ "[" ++ key.render ++ "]"
  | none => name

/-- The name of the instance with its key. -/
def logicalId (i : Instance) : String :=
  identifier i.name i.key

/-- The address of the instance: type and name with key. -/
def address (i : Instance) : String :=
  i.type ++ "." ++ i.logicalId

/-- A copy of the instance for a key, with the iteration symbols bound in its attributes. -/
def keyed (i : Instance) (key : IndexKey) (b : Binding) : Except Failure Instance := do
  let keyed : Instance := { i with key := some key, attributes := [] }
  let attributes ← Draft.bindAttributes b keyed.address i.attributes
  .ok { keyed with attributes }

/-- A value as failures describe it: its kind and its source text. -/
def describe (v : Value) : String :=
  v.kind.name ++ " `" ++ v.render ++ "`"

end Instance

end Deployment
