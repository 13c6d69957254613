import Deployment.Config.Literal

/-! # Issues of a document

What can be wrong with the declarations of a document. Issues are collected, so that one run reports
all of them. Only the overflow of a default is none of them: it ends the run without a report.
-/

namespace Deployment

/-- Something wrong with a declaration. -/
inductive Issue
  | rootAttribute (file name : String)
  | unknownBlockType (file type : String)
  | labelMismatch (file type : String) (expected found : Nat)
  | duplicateResource (address : String)
  | duplicateVariable (name : String)
  | duplicateLocal (name : String)
  | duplicateModule (name : String)
  | duplicateProvider (key : String)
  | defaultNotLiteral (name expr : String)
  | moduleSourceMissing (name : String)
  | dynamicBlock (address : String)
deriving DecidableEq, Repr

/-- The wording of an issue. -/
def Issue.message : Issue → String
  | .rootAttribute file name => s!"{file}: unexpected top level attribute `{name}`"
  | .unknownBlockType file type => s!"{file}: unknown block type `{type}`"
  | .labelMismatch file type expected found =>
    s!"{file}: `{type}` blocks take {expected} label(s), found {found}"
  | .duplicateResource address => s!"resource `{address}` is declared more than once"
  | .duplicateVariable name => s!"variable `{name}` is declared more than once"
  | .duplicateLocal name => s!"local value `{name}` is declared more than once"
  | .duplicateModule name => s!"module `{name}` is declared more than once"
  | .duplicateProvider key => s!"provider configuration `{key}` is declared more than once"
  | .defaultNotLiteral name expr =>
    s!"default of variable `{name}` must be a literal value, found `{expr}`"
  | .moduleSourceMissing name => s!"module `{name}` has no literal `source`"
  | .dynamicBlock address =>
    s!"resource `{address}` uses a `dynamic` block, which is not supported"

/-- The issues of a document that has any. -/
structure Issues where
  first : Issue
  others : List Issue
deriving DecidableEq, Repr

/-- The issues in order. -/
def Issues.toList (issues : Issues) : List Issue :=
  issues.first :: issues.others

/-- The wording of the first issue and the number of others. -/
def Issues.message (issues : Issues) : String :=
  if issues.others.isEmpty then issues.first.message
  else s!"{issues.first.message} (and {issues.others.length} more)"

/-- Why declarations make up no document. -/
inductive DocumentError
  | issues (found : Issues)
  /-- The default of a variable cannot be converted within 64 bits. -/
  | overflow
deriving DecidableEq, Repr

/-- The wording of a document error. -/
def DocumentError.message : DocumentError → String
  | .issues found => found.message
  | .overflow => Config.ConversionError.overflow.message

end Deployment
