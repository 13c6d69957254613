import Deployment.Expr
import Deployment.ParseError
import Deployment.Value

/-! # Failures of evaluation

Every failure names the expression at fault as it is written, and the context in which it was
found, such as `aws_instance.web.instance_type`. What can be wrong with an expression is a `Reason`;
`Reason.message` and `Failure.message` hold all wordings.
-/

namespace Deployment

/-- The built-in functions. -/
inductive Function
  | length
  | min
  | max
  | concat
deriving DecidableEq, Repr

/-- The name of a function. -/
def Function.name : Function → String
  | .length => "length"
  | .min => "min"
  | .max => "max"
  | .concat => "concat"

/-- Why a function has no result for its arguments. -/
inductive CallError
  | arity (f : Function) (count : Nat)
  | noLength (kind : Kind)
  | lengthTooLarge
  | notNumber (f : Function) (kind : Kind)
  | noArguments (f : Function)
  | notList (kind : Kind)
deriving DecidableEq, Repr

/-- The wording of a failed call. -/
def CallError.message : CallError → String
  | .arity f count => s!"{f.name}() takes 1 argument, got {count}"
  | .noLength kind => s!"length() of a {kind.name} is undefined"
  | .lengthTooLarge => "length out of range"
  | .notNumber f kind => s!"{f.name}() arguments must be numbers, got {kind.name}"
  | .noArguments f => s!"{f.name}() requires at least 1 argument"
  | .notList kind => s!"concat() arguments must be lists, got {kind.name}"

/-- What is wrong with an expression. -/
inductive Reason
  | unreadable (e : ParseError)
  | notSpliceable (kind : Kind)
  | keyNotText (kind : Kind)
  | duplicateKey (key : String)
  | notNegatable (kind : Kind)
  | arithmetic (e : ArithmeticError)
  | unknownFunction (name : String)
  | call (e : CallError)
  | unsupportedRoot (root : String)
  | unknownName
  | nameMissing (root : String)
  | notBool (kind : Kind)
  | notNumber (op : BinaryOp) (kind : Kind)
  | noAttribute (name : String) (kind : Kind)
  | indexNotWhole (kind : Kind)
  | indexOutOfRange (position : Int64) (length : Nat)
  | notIndexable (kind : Kind)
  | localCycle (chain : List String)
  | countNotWhole (description : String)
  | countWithForEach
  | elementNotPrimitive (description : String)
  | notIterable (description : String)
deriving DecidableEq, Repr

/-- The wording of a reason. -/
def Reason.message : Reason → String
  | .unreadable e => e.message
  | .notSpliceable kind => s!"a {kind.name} cannot be interpolated into a string"
  | .keyNotText kind => s!"map keys must be strings, got {kind.name}"
  | .duplicateKey key => s!"duplicate map key `{key}`"
  | .notNegatable kind => s!"cannot negate a {kind.name}"
  | .arithmetic e => e.message
  | .unknownFunction name => s!"unsupported function `{name}`"
  | .call e => e.message
  | .unsupportedRoot root => s!"`{root}` references are not supported"
  | .unknownName => "unknown identifier"
  | .nameMissing root => s!"`{root}` must be followed by a name"
  | .notBool kind => s!"expected a bool, got {kind.name}"
  | .notNumber op kind => s!"`{op.symbol}` requires numbers, got {kind.name}"
  | .noAttribute name kind => s!"cannot access attribute `{name}` of a {kind.name}"
  | .indexNotWhole kind => s!"list index must be a whole number, got {kind.name}"
  | .indexOutOfRange position length =>
    s!"index {position.toInt} is out of range for a list of {length} elements"
  | .notIndexable kind => s!"cannot index a {kind.name}"
  | .localCycle chain => s!"cycle between local values: " ++ " -> ".intercalate chain
  | .countNotWhole description =>
    s!"count must be a non-negative whole number, got {description}"
  | .countWithForEach => "`count` and `for_each` cannot be used together"
  | .elementNotPrimitive description =>
    s!"set elements must be strings, numbers or bools, got {description}"
  | .notIterable description => s!"for_each requires a map or a set, got {description}"

/-- Why an expression has no value, or a resource no instances. -/
inductive Failure
  | unresolved (expr : String) (context : String)
  | invalid (expr : String) (reason : Reason) (context : String)
  | limitExceeded (resource : String) (requested : Nat) (limit : Nat)
  | dynamic (expr : String) (context : String)
deriving DecidableEq, Repr

/-- The wording of a failure. -/
def Failure.message : Failure → String
  | .unresolved expr context => s!"unresolved reference `{expr}` in {context}"
  | .invalid expr reason context =>
    s!"invalid expression `{expr}` in {context}: {reason.message}"
  | .limitExceeded resource requested limit =>
    s!"{resource} requests {requested} instances, exceeding the limit of {limit}"
  | .dynamic expr context => s!"`{expr}` in {context} is only known after deployment"

end Deployment
