import Deployment.Config.Term

/-! # Configuration files

A document is made from files, each with the elements of its body. Elements at the top of all files
are numbered through, attributes and blocks apart.
-/

namespace Deployment

/-- A configuration file. Text that comes from no file has no name. -/
structure SourceFile where
  name? : Option String
  body : List Config.Structure

/-- The name of a file as messages show it. -/
def SourceFile.name (file : SourceFile) : String :=
  file.name?.getD "<input>"

/-- Something at the top of a file. -/
structure Located (α : Type) where
  file : String
  item : α

/-- The attributes at the top of files, in order. -/
def rootAttributes (files : List SourceFile) : List (Located (String × Config.Term)) :=
  files.flatMap fun file => (Config.attributesOf file.body).map (⟨file.name, ·⟩)

/-- The blocks at the top of files, in order. -/
def rootBlocks (files : List SourceFile) : List (Located Config.Block) :=
  files.flatMap fun file => (Config.blocksOf file.body).map (⟨file.name, ·⟩)

end Deployment
