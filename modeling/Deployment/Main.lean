import Deployment.CommandLine

/-! # The program

Gathers the files that a command line leads to and carries it out. All decisions are those of
`CommandLine.run`; here files are only read.
-/

namespace Deployment.CommandLine

/-- Adds what is in a place of the file system to a tree whose top is the root. -/
def look (tree : FileTree) (names : List String) : IO FileTree := do
  if (tree.node? names).isSome then return tree
  try
    let place ← IO.FS.realPath (tree.absolute names)
    if ← place.isDir then return tree.add names .directory
    else
      let bytes ← IO.FS.readBinFile place
      return tree.add names (.file (String.fromUTF8? bytes))
  catch _ => return tree

/-- Adds the configuration files directly in a directory. -/
def lookInto (tree : FileTree) (names : List String) : IO FileTree := do
  try
    let place ← IO.FS.realPath (tree.absolute names ++ "/")
    let mut tree := tree
    for entry in ← place.readDir do
      if FileTree.isConfiguration entry.fileName then
        tree ← look tree (names ++ [entry.fileName])
    return tree
  catch _ => return tree

/-- Follows a path and adds everything on its way, with the place that it leads to. -/
def explore (tree : FileTree) (directory : List String) (path : String) :
    IO (FileTree × Option (List String)) := do
  let mut tree := tree
  let (start, path) :=
    match tree.belowTop? path with
    | some path => ([], path)
    | none => (directory, path)
  let mut place? := some start
  for name in FileTree.pathNames path do
    if let some place := place? then
      tree ← look tree (place ++ [name])
      place? := tree.enter? place name
  return (tree, place?)

/-- Adds a configuration and the local modules that it uses, leaving out the places already seen. -/
partial def gather (tree : FileTree) (seen : List (List String)) (directory : List String)
    (path : String) : IO (FileTree × List (List String)) := do
  let (tree, place?) ← explore tree directory path
  let some place := place? | return (tree, seen)
  if seen.contains place then return (tree, seen)
  let tree ← lookInto tree place
  let .ok document := Plan.loadDocument ⟨tree, directory, path⟩ | return (tree, place :: seen)
  let base := tree.basePath directory path
  let mut state := (tree, place :: seen)
  for m in document.modules do
    if m.isLocal then
      state ← gather state.1 state.2 directory (joinPath base m.source)
  return state

/-- Adds everything that an invocation may read. -/
def gatherFor (tree : FileTree) (directory : List String) (invocation : Invocation) :
    IO FileTree := do
  let mut tree := tree
  let mut directory := directory
  for path in invocation.directories do
    let (wider, place?) ← explore tree directory path
    tree := wider
    directory := place?.getD directory
  match invocation.command with
  | .evaluate path _ variableFiles _ _ =>
    for file in variableFiles do
      tree := (← explore tree directory file).1
    return (← gather tree [] directory path).1
  | .showSources path => return (← gather tree [] directory path).1
  | .showDocument path => return (← gather tree [] directory path).1

end Deployment.CommandLine

open Deployment

/-- Runs the program. -/
def main (args : List String) : IO UInt32 := do
  let working ← IO.currentDir
  let names := (FileTree.pathNames working.toString).filter (!·.isEmpty)
  let mut environment : Entries String := []
  for name in [CommandLine.maxCountVariable, CommandLine.maxForEachVariable] do
    if let some value ← IO.getEnv name then
      environment := environment.put name value
  let mut tree : FileTree := FileTree.add ⟨"", []⟩ names .directory
  if let some invocation := CommandLine.Invocation.parse? environment args then
    tree ← CommandLine.gatherFor tree names invocation
  let outcome := CommandLine.run tree names environment args
  IO.print outcome.output
  IO.eprint outcome.diagnostics
  return outcome.exit.toUInt32
