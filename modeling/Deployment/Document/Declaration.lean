import Deployment.Config.Literal
import Deployment.Document

/-! # Declarations

How the body of a block becomes a resource, variable, module or provider. Attributes become drafts.
The blocks nested in a resource or provider become attributes: a list under the block's type, with a
map for every block of the type.
-/

namespace Deployment

open Config (Structure Term)

/-! ## Nested blocks -/

/-- Adds a nested block to attributes. An attribute of the same name that is no list keeps its
value. -/
def addNested (attributes : Entries Draft) (type : String) (body : Entries Draft) :
    Entries Draft :=
  match attributes.get? type with
  | none => attributes.put type (.list [.map body])
  | some (.list items) => attributes.put type (.list (items ++ [.map body]))
  | some _ => attributes

mutual
/-- Adds the elements of a body to attributes. -/
def addBody (attributes : Entries Draft) : List Structure → Entries Draft
  | [] => attributes
  | element :: rest => addBody (addElement attributes element) rest

/-- Adds an element of a body to attributes. -/
def addElement (attributes : Entries Draft) : Structure → Entries Draft
  | .attribute name t => attributes.put name t.toDraft
  | .block type _ body => addNested attributes type (addBody [] body)
end

/-! ## Attributes by name -/

/-- The term of a named attribute of a body. -/
def termOf? (body : List Structure) (name : String) : Option Term :=
  Entries.get? (Config.attributesOf body) name

/-- The text of a named attribute of a body, if it is plain text. -/
def textOf? (body : List Structure) (name : String) : Option String :=
  match termOf? body name with
  | some (.text s) => some s
  | _ => none

/-! ## Resources -/

/-- The attribute that names a resource's provider configuration. -/
def providerAttribute : String := "provider"

/-- The type of blocks that repeat a nested block. -/
def dynamicType : String := "dynamic"

/-- Attributes of a resource that say nothing about what is deployed. -/
def droppedAttributes : List String := ["depends_on"]

/-- Blocks of a resource that say nothing about what is deployed. -/
def droppedBlocks : List String := ["lifecycle", "provisioner", "connection"]

/-- Whether an element of a resource's body becomes one of its attributes. -/
def isDeployed : Structure → Bool
  | .attribute name _ => name != providerAttribute && !droppedAttributes.contains name
  | .block type _ _ => type != dynamicType && !droppedBlocks.contains type

/-- A resource with the elements of its body. -/
def Resource.ofBody (type name : String) (body : List Structure) : Resource where
  type := type
  name := name
  provider := (termOf? body providerAttribute).map Term.render
  attributes := addBody [] (body.filter isDeployed)

/-- The blocks of a body that would repeat a nested block. -/
def dynamicBlocks (body : List Structure) : List Config.Block :=
  (Config.blocksOf body).filter (·.type == dynamicType)

/-! ## Variables -/

/-- A variable with the attributes of its body; a default without a value is left out. -/
def Variable.ofBody (name : String) (body : List Structure) : Variable where
  name := name
  default := (termOf? body "default").bind (·.toValue.toOption)
  type := (termOf? body "type").map Term.render
  description := textOf? body "description"

/-- Why the default of a variable has no value, if it has none. -/
def defaultFault? (body : List Structure) : Option Config.ConversionError :=
  match (termOf? body "default").map Term.toValue with
  | some (.error e) => some e
  | _ => none

/-! ## Modules and providers -/

/-- The attribute that says where a module comes from. -/
def sourceAttribute : String := "source"

/-- Attributes of a module that are no inputs. -/
def ignoredInputs : List String := ["version", "providers", "depends_on"]

/-- Whether an attribute of a module is one of its inputs. -/
def isInput (name : String) : Bool :=
  name != sourceAttribute && !ignoredInputs.contains name

/-- A module with the attributes of its body; nothing if its source is no plain text. -/
def Module.ofBody? (name : String) (body : List Structure) : Option Module := do
  let source ← textOf? body sourceAttribute
  let inputs := (Config.attributesOf body).filter fun (key, _) => isInput key
  some ⟨name, source, Entries.ofPairs (inputs.map fun (key, t) => (key, t.toDraft))⟩

/-- The attribute that tells apart the configurations of one provider. -/
def aliasAttribute : String := "alias"

/-- Whether an element of a provider's body is its alias. Other than as text it is an attribute like
any other. -/
def isAlias : Structure → Bool
  | .attribute name (.text _) => name == aliasAttribute
  | _ => false

/-- A provider with the elements of its body. -/
def Provider.ofBody (name : String) (body : List Structure) : Provider where
  name := name
  aliasName := textOf? body aliasAttribute
  attributes := addBody [] (body.filter (!isAlias ·))

end Deployment
