import Deployment.Config.Literal
import Deployment.FileTree.Loading
import Deployment.Text.Blank

/-! # Settings

The limits of a run and the values of variables that it is given. The limits on instances have no
default. Values come from assignments `name=value` and from variable files, whose attributes have
to be plain data.
-/

namespace Deployment

/-- The limits of a run and its variables. -/
structure Settings where
  maxCount : Nat
  maxForEach : Nat
  maxModuleDepth : Nat
  vars : Entries Value

/-- How deep modules may be nested unless the settings say otherwise. -/
def defaultModuleDepth : Nat := 5

/-- What is wrong with the variables of a run. -/
inductive SettingsError
  | unreadable (e : ReadError)
  | malformed (path : String)
  | notLiteral (path name expr : String)
  /-- A value cannot be converted within 64 bits, which ends the program. -/
  | overflow
  | unexpectedBlock (path type : String)
  | invalidAssignment (text : String)
deriving DecidableEq, Repr

/-- The wording of a settings error. -/
def SettingsError.message : SettingsError → String
  | .unreadable e => e.message
  | .malformed path => s!"failed to parse {path}"
  | .notLiteral path name expr =>
    s!"{path}: value of `{name}` must be a literal, found `{expr}`"
  | .overflow => Config.ConversionError.overflow.message
  | .unexpectedBlock path type =>
    s!"{path}: unexpected block `{type}`, variable files only contain attributes"
  | .invalidAssignment text => s!"invalid variable assignment `{text}`, expected `name=value`"

namespace Settings

/-- Settings without variables. -/
def ofLimits (maxCount maxForEach : Nat) : Settings :=
  ⟨maxCount, maxForEach, defaultModuleDepth, []⟩

/-- Gives a variable a value. -/
def withVariable (settings : Settings) (name : String) (v : Value) : Settings :=
  { settings with vars := settings.vars.put name v }

/-- Gives variables values, later ones winning. -/
def withVariables (settings : Settings) (vars : Entries Value) : Settings :=
  { settings with vars := settings.vars.putAll vars }

/-- The value that the text of an assignment stands for: plain data, or else the text itself. -/
def assignedValue (text : String) : Except SettingsError Value :=
  match (Config.Term.parse? text).map Config.Term.toValue with
  | some (.ok v) => .ok v
  | some (.error .overflow) => .error .overflow
  | some (.error (.notLiteral _)) | none => .ok (.text text)

/-- Reads an assignment: a name, an equals sign and a value. -/
def parseAssignment (text : String) : Except SettingsError (String × Value) :=
  match text.toList.dropWhile (· != '=') with
  | [] => .error (.invalidAssignment text)
  | _ :: written =>
    let name := Text.trim (text.toList.takeWhile (· != '='))
    if name.isEmpty then .error (.invalidAssignment text)
    else do .ok (String.ofList name, ← assignedValue (String.ofList written))

/-- The variables that the elements of a variable file set, in order. -/
def variablesOf (path : String) : List Config.Structure → Except SettingsError (Entries Value)
  | [] => .ok []
  | .attribute name t :: rest =>
    match t.toValue with
    | .ok v => do .ok ((name, v) :: (← variablesOf path rest))
    | .error (.notLiteral expr) => .error (.notLiteral path name expr)
    | .error .overflow => .error .overflow
  | .block type _ _ :: _ => .error (.unexpectedBlock path type)

/-- Reads the variable file at the end of a path. -/
def loadVariables (tree : FileTree) (directory : List String) (path : String) :
    Except SettingsError (Entries Value) := do
  let text ← (tree.readText directory path).mapError .unreadable
  match Config.Structure.parse? text with
  | some body => variablesOf path body
  | none => .error (.malformed path)

end Settings

end Deployment
