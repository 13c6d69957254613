/-! # File trees

The files that a run may read, as data: every file and directory below a top directory, by the names
on the way to it. A path is text as it was given; it is followed name by name, and every name on the
way has to be a directory.
-/

namespace Deployment

/-- What is in a place of a file tree. A file whose bytes are no text has no content. -/
inductive FileNode
  | file (content : Option String)
  | directory
deriving DecidableEq, Repr

/-- The files and directories below a top directory. -/
structure FileTree where
  /-- How the absolute path of the top directory is written, without a slash at its end. -/
  top : String
  nodes : List (List String × FileNode)

namespace FileTree

/-- The names that stand for what is around the top directory: a directory of which nothing else is
known. -/
def outside : List String := [".."]

/-- What is at the end of names, seen from the top. -/
def node? (tree : FileTree) (names : List String) : Option FileNode :=
  if names.isEmpty || names == outside then some .directory else tree.nodes.lookup names

/-- The directory around a directory. Around the root of a file system is the root itself. -/
def parent (tree : FileTree) (names : List String) : List String :=
  if names == outside then outside
  else if names.isEmpty then if tree.top.isEmpty then [] else outside
  else names.dropLast

/-- Whether names lead to a directory. -/
def isDirectory (tree : FileTree) (names : List String) : Bool :=
  tree.node? names == some .directory

/-- Adds a place unless there is one already. -/
def addPlace (tree : FileTree) (names : List String) (node : FileNode) : FileTree :=
  if (tree.node? names).isSome then tree
  else { tree with nodes := tree.nodes ++ [(names, node)] }

/-- Adds a file or directory, and the directories on the way to it. -/
def add (tree : FileTree) (names : List String) (node : FileNode) : FileTree :=
  let parents := (List.range names.length).map fun n => names.take n
  (parents.foldl (fun tree names => tree.addPlace names .directory) tree).addPlace names node

/-- The absolute path of a place. -/
def absolute (tree : FileTree) (names : List String) : String :=
  tree.top ++ String.join (names.map ("/" ++ ·))

/-- The names between the slashes of a path. -/
def pathNames (path : String) : List String :=
  path.splitOn "/"

/-- Goes one name further from a directory. -/
def enter? (tree : FileTree) (names : List String) (name : String) : Option (List String) :=
  if !tree.isDirectory names then none
  else if name = "" ∨ name = "." then some names
  else if name = ".." then some (tree.parent names)
  else if (tree.node? (names ++ [name])).isSome then some (names ++ [name])
  else none

/-- What follows the path of the top directory in an absolute path below it. -/
def belowTop? (tree : FileTree) (path : String) : Option String :=
  let top := (tree.top ++ "/").toList
  if top.isPrefixOf path.toList then some (String.ofList (path.toList.drop top.length)) else none

/-- Follows a path from a directory. Absolute paths start at the top. -/
def follow? (tree : FileTree) (directory : List String) (path : String) :
    Option (List String) :=
  match tree.belowTop? path with
  | some path => (pathNames path).foldlM tree.enter? []
  | none =>
    if path.isEmpty || path.startsWith "/" then none
    else (pathNames path).foldlM tree.enter? directory

/-- The names of the files in a directory. -/
def fileNames (tree : FileTree) (directory : List String) : List String :=
  tree.nodes.filterMap fun (names, node) =>
    match node with
    | .file _ => if names.dropLast = directory then names.getLast? else none
    | .directory => none

end FileTree

/-! ## Paths as text -/

/-- A relative path behind the path of a directory. -/
def joinPath (directory path : String) : String :=
  if directory.isEmpty || directory.endsWith "/" then directory ++ path
  else directory ++ "/" ++ path

/-- Names without those at their end that lead nowhere. The first name stays. -/
def dropIdleNames : List String → List String
  | [] => []
  | [name] => [name]
  | first :: rest =>
    first :: (rest.reverse.dropWhile fun name => name == "" || name == ".").reverse

/-- The path of the directory that a file is in. -/
def parentPath (path : String) : String :=
  let parent := "/".intercalate (dropIdleNames (FileTree.pathNames path).dropLast)
  if parent.isEmpty && path.startsWith "/" then "/" else parent

end Deployment
