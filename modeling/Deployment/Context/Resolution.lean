import Deployment.Document
import Deployment.Draft.Evaluation

/-! # Resolving variables and local values

A variable has the value supplied from outside, or else its default; without either it is left out
of the context. Local values may refer to each other in any order. They are evaluated on demand with
a stack: a local value that needs a pending one waits until that one is known, and one that waits
for itself closes a cycle.

Every round evaluates the local value on top of the stack. It either stores its value or puts one
more name on the stack, so `2 * n` rounds are enough for `n` local values.
-/

namespace Deployment

namespace Context

/-- The values of the declared variables. -/
def variablesOf (vars : List Variable) (overrides : Entries Value) : Entries Value :=
  vars.filterMap fun v => ((overrides.get? v.name).or v.default).map (v.name, ·)

/-- How failures show a local value. -/
def localName (name : String) : String :=
  "local." ++ name

/-- The name of the local value that an unresolved reference is about. -/
def localOf? (expr : String) : Option String :=
  match expr.toList with
  | 'l' :: 'o' :: 'c' :: 'a' :: 'l' :: '.' :: name => some (String.ofList name)
  | _ => none

/-- The names around a cycle, which starts and ends with `name`. The stack has its top first. -/
def cycle (stack : List String) (name : String) : List String :=
  name :: (stack.takeWhile (· != name)).reverse ++ [name]

/-- The failure of a local value that needs itself. -/
def cycleFailure (current : String) (stack : List String) (name : String) : Failure :=
  .invalid (localName current) (.localCycle ((cycle stack name).map localName)) "locals"

/-- What one round of the resolution leads to. -/
inductive Round
  /-- The current local value is known. -/
  | stored (value : Value)
  /-- It waits for another one. -/
  | waiting (dependency : String)
  /-- There is no value. -/
  | failed (failure : Failure)

/-- Evaluates the local value on top of the stack. -/
def round (definitions : Entries Draft) (context : Context) (current : String)
    (stack : List String) : Round :=
  match definitions.get? current with
  | none => .failed (.unresolved (localName current) "locals")
  | some draft =>
    match draft.evaluate context (localName current) with
    | .ok value => .stored value
    | .error (.unresolved expr location) =>
      match (localOf? expr).filter definitions.has with
      | none => .failed (.unresolved expr location)
      | some dependency =>
        -- A pending value that is needed to find itself will never be known.
        if stack.contains dependency then .failed (cycleFailure current stack dependency)
        else .waiting dependency
    | .error failure => .failed failure

/-- Resolves the names on the stack and then the pending ones, in at most the given number of
rounds. -/
def resolveLocals (definitions : Entries Draft) (vars : Entries Value) :
    Nat → List String → List String → Entries Value → Except Failure (Entries Value)
  | rounds, pending, stack, locals =>
    let (stack, pending) :=
      match stack with
      | [] =>
        let pending := pending.dropWhile locals.has
        (pending.take 1, pending.drop 1)
      | stack => (stack, pending)
    match stack, rounds with
    | [], _ => .ok locals
    | current :: _, 0 => .error (.unresolved (localName current) "locals")
    | current :: below, rounds + 1 =>
      match round definitions ⟨vars, locals⟩ current stack with
      | .stored value =>
        resolveLocals definitions vars rounds pending below (locals.put current value)
      | .waiting dependency =>
        resolveLocals definitions vars rounds pending (dependency :: stack) locals
      | .failed failure => .error failure

end Context

/-- The context of a document: its variables and all its local values. -/
def Document.resolveContext (document : Document) (overrides : Entries Value) :
    Except Failure Context := do
  let vars := Context.variablesOf document.vars overrides
  let locals ← Context.resolveLocals document.locals vars (2 * document.locals.length)
    document.locals.keys [] []
  .ok ⟨vars, locals⟩

end Deployment
