import Deployment.Context
import Deployment.Expr.Parser
import Deployment.Expr.Printer
import Deployment.Function

/-! # Evaluating expressions

`Expr.evaluate` computes the value of an expression in a context. References to variables and local
values are looked up; references to other resources are only known after deployment, and iteration
symbols are unresolved outside an instance. A template that is one interpolation keeps the kind of
its value, any other template is text.

`location` names the place of the expression in failures.
-/

namespace Deployment

namespace Value

/-- The value of an attribute of a map. `written` is the access as failures show it. -/
def getAttribute (object : Value) (name written location : String) : Except Failure Value :=
  match object with
  | .map entries =>
    match Entries.get? entries name with
    | some v => .ok v
    | none => .error (.unresolved written location)
  | other => .error (.invalid written (.noAttribute name other.kind) location)

/-- The item of a list at a whole number, or the value of a key of a map. -/
def getIndex (object key : Value) (written location : String) : Except Failure Value :=
  match object with
  | .list items =>
    match key.number?.bind Number.whole? with
    | none => .error (.invalid written (.indexNotWhole key.kind) location)
    | some position =>
      let item? := if 0 ≤ position.toInt then items[position.toInt.toNat]? else none
      match item? with
      | some v => .ok v
      | none => .error (.invalid written (.indexOutOfRange position items.length) location)
  | .map entries =>
    match key.text? with
    | none => .error (.invalid written (.keyNotText key.kind) location)
    | some key =>
      match Entries.get? entries key with
      | some v => .ok v
      | none => .error (.unresolved written location)
  | other => .error (.invalid written (.notIndexable other.kind) location)

/-- Follows attribute names from a value. `path` is what has been followed so far. -/
def follow (location : String) : Value → String → List String → Except Failure Value
  | v, _, [] => .ok v
  | v, path, name :: rest =>
    match v.getAttribute name (path ++ "." ++ name) location with
    | .ok v => follow location v (path ++ "." ++ name) rest
    | .error e => .error e

/-- The value as a condition. -/
def asCondition (v : Value) (written location : String) : Except Failure Bool :=
  match v.bool? with
  | some b => .ok b
  | none => .error (.invalid written (.notBool v.kind) location)

/-- The value as the key of a map. -/
def asKey (v : Value) (written location : String) : Except Failure String :=
  match v.text? with
  | some key => .ok key
  | none => .error (.invalid written (.keyNotText v.kind) location)

/-- The value as text to splice. -/
def asSplice (v : Value) (written location : String) : Except Failure String :=
  match v.text? with
  | some s => .ok s
  | none => .error (.invalid written (.notSpliceable v.kind) location)

/-- The value as an operand of an operator on numbers. -/
def asOperand (v : Value) (op : BinaryOp) (written location : String) : Except Failure Number :=
  match v.number? with
  | some n => .ok n
  | none => .error (.invalid written (.notNumber op v.kind) location)

end Value

/-- The value of a name in a scope and the attributes behind it. -/
def Context.resolve (scope : Entries Value) (r : Reference) (location : String) :
    Except Failure Value :=
  match r.path with
  | [] => .error (.invalid r.render (.nameMissing r.root) location)
  | name :: rest =>
    let path := r.root ++ "." ++ name
    match scope.get? name with
    | some v => v.follow location path rest
    | none => .error (.unresolved path location)

/-- The value of a reference. -/
def Context.lookup (context : Context) (r : Reference) (location : String) :
    Except Failure Value :=
  match r.root with
  | "var" => resolve context.vars r location
  | "local" => resolve context.locals r location
  | "data" | "resource" | "module" => .error (.dynamic r.render location)
  | "count" | "each" => .error (.unresolved r.render location)
  | "self" | "path" | "terraform" => .error (.invalid r.render (.unsupportedRoot r.root) location)
  | _ =>
    if r.path.isEmpty then .error (.invalid r.render .unknownName location)
    else .error (.dynamic r.render location)

namespace Expr

/-- The result of a comparison by order. -/
def applyOrder (op : OrderOp) (a b : Value) (written location : String) :
    Except Failure Value := do
  let x ← a.asOperand (.order op) written location
  let y ← b.asOperand (.order op) written location
  .ok (.bool (op.holds (x.compare y)))

/-- The result of an arithmetic operator. -/
def applyArithmetic (op : ArithmeticOp) (a b : Value) (written location : String) :
    Except Failure Value := do
  let x ← a.asOperand (.arithmetic op) written location
  let y ← b.asOperand (.arithmetic op) written location
  match Number.arithmetic op x y with
  | .ok n => .ok (.number n)
  | .error e => .error (.invalid written (.arithmetic e) location)

/-- The negated value. -/
def applyNegation (v : Value) (written location : String) : Except Failure Value :=
  match v.number? with
  | none => .error (.invalid written (.notNegatable v.kind) location)
  | some n =>
    match n.negate with
    | .ok n => .ok (.number n)
    | .error e => .error (.invalid written (.arithmetic e) location)

/-- The result of a call with evaluated arguments. -/
def applyCall (f : Function) (args : List Value) (written location : String) :
    Except Failure Value :=
  match f.call args with
  | .ok v => .ok v
  | .error e => .error (.invalid written (.call e) location)

mutual
/-- The value of an expression. -/
def evaluate (context : Context) (location : String) : Expr → Except Failure Value
  | .literal v => .ok v
  | .template [.interpolation e] => evaluate context location e
  | .template parts => do
    let s ← evaluateParts context location parts
    .ok (.text s)
  | .reference r => context.lookup r location
  | .list items => do
    let values ← evaluateItems context location items
    .ok (.list values)
  | .map entries => do
    let values ← evaluateEntries context location [] entries
    .ok (.map values)
  | .attribute object name => do
    let v ← evaluate context location object
    v.getAttribute name (render (.attribute object name)) location
  | .index object key => do
    let v ← evaluate context location object
    let k ← evaluate context location key
    v.getIndex k (render (.index object key)) location
  | .unary .not operand => do
    let v ← evaluate context location operand
    let b ← v.asCondition operand.render location
    .ok (.bool (!b))
  | .unary .neg operand => do
    let v ← evaluate context location operand
    applyNegation v (render (.unary .neg operand)) location
  -- The right operand of a logical operator is evaluated only if the left one does not decide.
  | .binary .and left right => do
    let v ← evaluate context location left
    if ← v.asCondition left.render location then
      let w ← evaluate context location right
      let b ← w.asCondition right.render location
      .ok (.bool b)
    else .ok (.bool false)
  | .binary .or left right => do
    let v ← evaluate context location left
    if ← v.asCondition left.render location then .ok (.bool true)
    else
      let w ← evaluate context location right
      let b ← w.asCondition right.render location
      .ok (.bool b)
  | .binary .equal left right => do
    let a ← evaluate context location left
    let b ← evaluate context location right
    .ok (.bool (a == b))
  | .binary .notEqual left right => do
    let a ← evaluate context location left
    let b ← evaluate context location right
    .ok (.bool (!(a == b)))
  | .binary (.order op) left right => do
    let a ← evaluate context location left
    let b ← evaluate context location right
    applyOrder op a b (render (.binary (.order op) left right)) location
  | .binary (.arithmetic op) left right => do
    let a ← evaluate context location left
    let b ← evaluate context location right
    applyArithmetic op a b (render (.binary (.arithmetic op) left right)) location
  | .conditional condition yes no => do
    let v ← evaluate context location condition
    if ← v.asCondition condition.render location then evaluate context location yes
    else evaluate context location no
  | .call name args =>
    match Function.ofName? name with
    | none => .error (.invalid (render (.call name args)) (.unknownFunction name) location)
    | some f => do
      let values ← evaluateItems context location args
      applyCall f values (render (.call name args)) location

/-- The values of expressions in order. -/
def evaluateItems (context : Context) (location : String) :
    List Expr → Except Failure (List Value)
  | [] => .ok []
  | e :: rest => do
    let v ← evaluate context location e
    let vs ← evaluateItems context location rest
    .ok (v :: vs)

/-- Adds the entries of a map constructor to the ones evaluated before them. -/
def evaluateEntries (context : Context) (location : String) (seen : Entries Value) :
    List (Expr × Expr) → Except Failure (Entries Value)
  | [] => .ok seen
  | (key, e) :: rest => do
    let k ← evaluate context location key
    let k ← k.asKey key.render location
    -- A repeated key is a failure even if its value would be one, too.
    if seen.has k then .error (.invalid key.render (.duplicateKey k) location)
    else
      let v ← evaluate context location e
      evaluateEntries context location (seen.put k v) rest

/-- The text of a template that is not a single interpolation. -/
def evaluateParts (context : Context) (location : String) :
    List (Part Expr) → Except Failure String
  | [] => .ok ""
  | .text s :: rest => do
    let t ← evaluateParts context location rest
    .ok (s ++ t)
  | .interpolation e :: rest => do
    let v ← evaluate context location e
    let s ← v.asSplice e.render location
    let t ← evaluateParts context location rest
    .ok (s ++ t)
end

end Expr

/-- The value of a template. -/
def Template.evaluate (context : Context) (location : String) (parts : Template) :
    Except Failure Value :=
  Expr.evaluate context location (.template parts)

/-- The value of template text. -/
def Template.evaluateText (context : Context) (location text : String) : Except Failure Value :=
  match Template.parse text false with
  | .ok parts => Template.evaluate context location parts
  | .error e => .error (.invalid text (.unreadable e) location)

end Deployment
