import Deployment.Config.Reader
import Deployment.Document.Source
import Deployment.FileTree

/-! # Loading files

A path leads to a configuration file or to a directory, which stands for all configuration files
directly in it, ordered by name. The first file that cannot be read fails the whole.
-/

namespace Deployment

/-- Why the text of a file cannot be read. -/
inductive ReadError
  | notFound
  | notDirectory
  | isDirectory
  | notText
deriving DecidableEq, Repr

/-- The wording of a read error. -/
def ReadError.message : ReadError → String
  | .notFound => "No such file or directory (os error 2)"
  | .notDirectory => "Not a directory (os error 20)"
  | .isDirectory => "Is a directory (os error 21)"
  | .notText => "stream did not contain valid UTF-8"

/-- Why configuration files cannot be loaded. -/
inductive LoadError
  | noFiles (directory : String)
  | invalidPath (path : String)
  | unreadable (e : ReadError)
  | malformed (path : String)
deriving DecidableEq, Repr

/-- The wording of a load error. -/
def LoadError.message : LoadError → String
  | .noFiles directory => s!"No .tf files found in directory {directory}"
  | .invalidPath path => s!"{path} is neither a file nor a directory"
  | .unreadable _ => "IO error"
  | .malformed path => s!"Unable to parse hcl file {path}"

namespace FileTree

/-- Whether a name is that of a configuration file: something and the extension `tf`. -/
def isConfiguration (name : String) : Bool :=
  name.endsWith ".tf" && name != ".tf"

/-- Whether some beginning of a path leads to a file, which cannot be gone beyond. -/
def passesFile (tree : FileTree) (directory : List String) (path : String) : Bool :=
  let names := pathNames path
  (List.range names.length).any fun n =>
    match tree.follow? directory ("/".intercalate (names.take n)) with
    | some place => tree.node? place != some .directory
    | none => false

/-- The text of the file at the end of a path. -/
def readText (tree : FileTree) (directory : List String) (path : String) :
    Except ReadError String :=
  match tree.follow? directory path with
  | none => .error (if tree.passesFile directory path then .notDirectory else .notFound)
  | some names =>
    match tree.node? names with
    | some (.file (some content)) => .ok content
    | some (.file none) => .error .notText
    | some .directory => .error .isDirectory
    | none => .error .notFound

/-- Reads a configuration file. -/
def loadFile (tree : FileTree) (names : List String) : Except LoadError SourceFile :=
  match tree.node? names with
  | some (.file (some content)) =>
    match Config.Structure.parse? content with
    | some body => .ok ⟨some (tree.absolute names), body⟩
    | none => .error (.malformed (tree.absolute names))
  | some (.file none) => .error (.unreadable .notText)
  | some .directory => .error (.unreadable .isDirectory)
  | none => .error (.unreadable .notFound)

/-- The names of the configuration files in a directory, in order. -/
def configurationNames (tree : FileTree) (directory : List String) : List String :=
  ((tree.fileNames directory).filter isConfiguration).mergeSort fun a b => decide (a ≤ b)

/-- Reads the configuration file or directory at the end of a path. -/
def load (tree : FileTree) (directory : List String) (path : String) :
    Except LoadError (List SourceFile) :=
  match tree.follow? directory path with
  | none => .error (.invalidPath path)
  | some names =>
    match tree.node? names with
    | some (.file _) => (tree.loadFile names).map ([·])
    | _ =>
      match tree.configurationNames names with
      | [] => .error (.noFiles path)
      | files => files.mapM fun name => tree.loadFile (names ++ [name])

/-- The path of the directory from which the modules of a configuration are found: that of the file
at the end of a path, or the path itself. -/
def basePath (tree : FileTree) (directory : List String) (path : String) : String :=
  match (tree.follow? directory path).bind tree.node? with
  | some (.file _) => parentPath path
  | _ => path

end FileTree

end Deployment
