import Deployment.Failure

/-! # Built-in functions

Expressions may call a closed set of functions: `length` of a list, map or text, `min` and `max` of
numbers, and `concat` of lists.
-/

namespace Deployment.Function

/-- The function of a name. -/
def ofName? : String → Option Function
  | "length" => some .length
  | "min" => some .min
  | "max" => some .max
  | "concat" => some .concat
  | _ => none

/-- A length as a value. -/
def lengthValue (n : Nat) : Except CallError Value :=
  match Value.ofInt? n with
  | some v => .ok v
  | none => .error .lengthTooLarge

/-- The number of items of a list, entries of a map or characters of a text. -/
def callLength : List Value → Except CallError Value
  | [.list items] => lengthValue items.length
  | [.map entries] => lengthValue entries.length
  | [.text s] => lengthValue s.length
  | [v] => .error (.noLength v.kind)
  | args => .error (.arity .length args.length)

/-- The extreme number among the arguments and the best one before them: an argument replaces the
best so far only if it compares to it as wanted, so of equal ones the first stays. -/
def extreme (f : Function) (wanted : Ordering) :
    Option Number → List Value → Except CallError Value
  | none, [] => .error (.noArguments f)
  | some best, [] => .ok (.number best)
  | best, arg :: rest =>
    match arg.number? with
    | none => .error (.notNumber f arg.kind)
    | some n =>
      match best with
      | none => extreme f wanted (some n) rest
      | some current =>
        extreme f wanted (some (if n.compare current = wanted then n else current)) rest

/-- The items of all lists in order. -/
def callConcat : List Value → Except CallError (List Value)
  | [] => .ok []
  | .list items :: rest => (callConcat rest).map (items ++ ·)
  | v :: _ => .error (.notList v.kind)

/-- Applies a function. -/
def call (f : Function) (args : List Value) : Except CallError Value :=
  match f with
  | .length => callLength args
  | .min => extreme .min .lt none args
  | .max => extreme .max .gt none args
  | .concat => (callConcat args).map .list

end Deployment.Function
