import Deployment.CommandLine.Arguments
import Deployment.Settings

/-! # Invocations

What a command line asks for. `evaluate` plans a configuration; the limits on instances have to be
given as options or in the environment. `dev` shows what was read from configuration files.
-/

namespace Deployment.CommandLine

/-- The notation of the output. -/
inductive OutputFormat
  | json
  | yaml
deriving DecidableEq, Repr

/-- The output format of a name. -/
def OutputFormat.ofName? : String → Option OutputFormat
  | "json" => some .json
  | "yaml" => some .yaml
  | _ => none

/-- What to do. -/
inductive Command
  | evaluate (path : String) (limits : Settings) (variableFiles assignments : List String)
      (format : OutputFormat)
  | showSources (path : String)
  | showDocument (path : String)

/-- A command, and the directories to go to before. -/
structure Invocation where
  directories : List String
  command : Command

/-- The option that changes the working directory. -/
def directoryOption : OptionName := ⟨"directory", some 'C'⟩

/-- The options of the command `evaluate`. -/
def evaluateOptions : List OptionName :=
  [directoryOption, ⟨"max-count", none⟩, ⟨"max-for-each", none⟩, ⟨"max-module-depth", none⟩,
    ⟨"var", none⟩, ⟨"var-file", none⟩, ⟨"output-format", some 'F'⟩]

/-- The environment variable that limits the instances by number. -/
def maxCountVariable : String := "TFEXPAND_MAX_COUNT_EXPANSION"

/-- The environment variable that limits the instances by key. -/
def maxForEachVariable : String := "TFEXPAND_MAX_FOR_EACH_EXPANSION"

/-- A limit that an option gives or else the environment. -/
def limitOf? (options : List Given) (long : String) (fallback : Option String) : Option Nat := do
  let given ← single? options long
  limit? (← given.or fallback)

/-- The path that is the only operand; without one it is the working directory. -/
def pathOperand? : List String → Option String
  | [] => some "."
  | [path] => path? path
  | _ => none

/-- The directories among options. -/
def directoriesOf? (options : List Given) : Option (List String) :=
  (valuesOf options directoryOption.long).mapM path?

/-- The directories of a command and of its subcommand: the ones given later replace the others. -/
def innermost (outer inner : List String) : List String :=
  if inner.isEmpty then outer else inner

/-- Reads the arguments of the command `evaluate`. -/
def parseEvaluate? (environment : Entries String) (args : List String) : Option Invocation := do
  let ⟨options, operands⟩ ← readArguments evaluateOptions args
  let path ← pathOperand? operands
  let maxCount ← limitOf? options "max-count" (environment.get? maxCountVariable)
  let maxForEach ← limitOf? options "max-for-each" (environment.get? maxForEachVariable)
  let maxModuleDepth ←
    match ← single? options "max-module-depth" with
    | some text => limit? text
    | none => some defaultModuleDepth
  let format ←
    match ← single? options "output-format" with
    | some name => OutputFormat.ofName? name
    | none => some .yaml
  let variableFiles ← (valuesOf options "var-file").mapM path?
  let directories ← directoriesOf? options
  some ⟨directories, .evaluate path ⟨maxCount, maxForEach, maxModuleDepth, []⟩ variableFiles
    (valuesOf options "var") format⟩

/-- Reads the arguments of a command that only takes a path. -/
def parseShow? (command : String → Command) (args : List String) : Option Invocation := do
  let ⟨options, operands⟩ ← readArguments [directoryOption] args
  some ⟨← directoriesOf? options, command (← pathOperand? operands)⟩

/-- Reads the arguments of the command `dev`. -/
def parseDev? (args : List String) : Option Invocation := do
  let (options, name, args) ← readCommand [directoryOption] args
  let outer ← directoriesOf? options
  let inner ←
    match name with
    | "documents" => parseShow? .showSources args
    | "document" => parseShow? .showDocument args
    | _ => none
  some { inner with directories := innermost outer inner.directories }

/-- Reads a command line; nothing if it asks for nothing there is. -/
def Invocation.parse? (environment : Entries String) (args : List String) : Option Invocation := do
  let (options, name, args) ← readCommand [directoryOption] args
  let outer ← directoriesOf? options
  let inner ←
    match name with
    | "evaluate" | "eval" => parseEvaluate? environment args
    | "dev" => parseDev? args
    | _ => none
  some { inner with directories := innermost outer inner.directories }

end Deployment.CommandLine
