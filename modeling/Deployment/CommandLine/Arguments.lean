import Deployment.Entries

/-! # Arguments

The arguments of a command line are options with a value and operands. A value follows its option or
is attached to it: `--var a=1`, `--var=a=1`, `-C net`, `-Cnet`, `-C=net`. Behind `--` all arguments
are operands. A command that has subcommands takes no operands: the first argument that is no option
names the subcommand.
-/

namespace Deployment.CommandLine

/-- An option, by its long name and an optional letter. -/
structure OptionName where
  long : String
  letter? : Option Char
deriving DecidableEq, Repr

/-- An option with its value. -/
structure Given where
  long : String
  value : String

/-- Options and operands, in order. -/
structure Arguments where
  options : List Given
  operands : List String

/-- Whether an argument has the form of an option. -/
def isOption (arg : String) : Bool :=
  arg.startsWith "-" && arg != "-"

/-- The option that an argument names, and the value attached to it. -/
def optionOf? (known : List OptionName) (arg : String) : Option (OptionName × Option String) :=
  match arg.toList with
  | '-' :: '-' :: text =>
    let long := String.ofList (text.takeWhile (· != '='))
    let attached :=
      match text.dropWhile (· != '=') with
      | _ :: value => some (String.ofList value)
      | [] => none
    (known.find? (·.long == long)).map (·, attached)
  | '-' :: letter :: text =>
    let attached :=
      match text with
      | [] => none
      | '=' :: value => some (String.ofList value)
      | value => some (String.ofList value)
    (known.find? (·.letter? == some letter)).map (·, attached)
  | _ => none

/-- Reads all arguments of a command without subcommands. -/
def readArguments (known : List OptionName) : List String → Option Arguments
  | [] => some ⟨[], []⟩
  | arg :: rest =>
    if arg = "--" then some ⟨[], rest⟩
    else if isOption arg then
      match optionOf? known arg with
      | none => none
      | some (option, some value) => do
        let others ← readArguments known rest
        some { others with options := ⟨option.long, value⟩ :: others.options }
      | some (option, none) =>
        match rest with
        | [] => none
        | value :: rest =>
          if isOption value then none
          else do
            let others ← readArguments known rest
            some { others with options := ⟨option.long, value⟩ :: others.options }
    else do
      let others ← readArguments known rest
      some { others with operands := arg :: others.operands }

/-- Reads the options of a command with subcommands: the options, the subcommand and its
arguments. -/
def readCommand (known : List OptionName) : List String →
    Option (List Given × String × List String)
  | [] => none
  | arg :: rest =>
    if isOption arg then
      match optionOf? known arg with
      | none => none
      | some (option, some value) => do
        let (options, name, args) ← readCommand known rest
        some (⟨option.long, value⟩ :: options, name, args)
      | some (option, none) =>
        match rest with
        | [] => none
        | value :: rest =>
          if isOption value then none
          else do
            let (options, name, args) ← readCommand known rest
            some (⟨option.long, value⟩ :: options, name, args)
    else some ([], arg, rest)

/-- The values of an option, in order. -/
def valuesOf (options : List Given) (long : String) : List String :=
  options.filterMap fun option => if option.long == long then some option.value else none

/-- The value of an option that may be given once; nothing if it is given more often. -/
def single? (options : List Given) (long : String) : Option (Option String) :=
  match valuesOf options long with
  | [] => some none
  | [value] => some (some value)
  | _ => none

/-- A path is never empty. -/
def path? (text : String) : Option String :=
  if text.isEmpty then none else some text

/-- The natural number below `2 ^ 32` that a text denotes. It may have a sign. -/
def limit? (text : String) : Option Nat :=
  let (negative, digits) :=
    match text.toList with
    | '-' :: digits => (true, digits)
    | '+' :: digits => (false, digits)
    | digits => (false, digits)
  if digits.isEmpty || !digits.all Char.isDigit then none
  else
    let n := (String.ofList digits).toNat?.getD 0
    if n < UInt32.size && !(negative && n != 0) then some n else none

end Deployment.CommandLine
