import Deployment.Draft
import Deployment.Expr.Evaluation
import Deployment.Expr.References

/-! # Evaluating drafts

`Draft.evaluate` computes the value of a draft in one go. `Draft.resolve` evaluates only what does
not depend on an instance: text that interpolates `count` or `each` stays as written, and everything
else is replaced by the draft of its value. Two keys of one map with the same text are a failure.
-/

namespace Deployment

/-- The key that a key template evaluates to. -/
def Template.evaluateKey (context : Context) (location template : String) :
    Except Failure String := do
  let v ← Template.evaluateText context location template
  v.asKey template location

/-- Whether text interpolates an iteration symbol. Text that is no template interpolates nothing. -/
def Template.mentionsIteration (template : String) : Bool :=
  match Template.parse template false with
  | .ok parts => parts.references.any fun r => r.root == "count" || r.root == "each"
  | .error _ => false

namespace Draft

/-- The location of an item of a list. -/
def itemLocation (location : String) (i : Nat) : String :=
  location ++ "[" ++ toString i ++ "]"

/-- The location of an attribute or map entry. -/
def entryLocation (location key : String) : String :=
  location ++ "." ++ key

mutual
/-- The value of a draft. -/
def evaluate (context : Context) (location : String) : Draft → Except Failure Value
  | .null => .ok .null
  | .bool b => .ok (.bool b)
  | .number n => .ok (.number n)
  | .text template => Template.evaluateText context location template
  | .list items => do
    let values ← evaluateItems context location 0 items
    .ok (.list values)
  | .map entries => do
    let values ← evaluateEntries context location [] entries
    .ok (.map values)

/-- The values of the items of a list from position `i` on. -/
def evaluateItems (context : Context) (location : String) (i : Nat) :
    List Draft → Except Failure (List Value)
  | [] => .ok []
  | d :: rest => do
    let v ← evaluate context (itemLocation location i) d
    let vs ← evaluateItems context location (i + 1) rest
    .ok (v :: vs)

/-- Adds the values of entries to the ones evaluated before them. -/
def evaluateEntries (context : Context) (location : String) (seen : Entries Value) :
    List (String × Draft) → Except Failure (Entries Value)
  | [] => .ok seen
  | (template, d) :: rest => do
    let key ← Template.evaluateKey context location template
    let v ← evaluate context (entryLocation location key) d
    if seen.has key then .error (.invalid template (.duplicateKey key) location)
    else evaluateEntries context location (seen.put key v) rest
end

mutual
/-- The draft with everything evaluated that does not depend on an instance. -/
def resolve (context : Context) (location : String) : Draft → Except Failure Draft
  | .null => .ok .null
  | .bool b => .ok (.bool b)
  | .number n => .ok (.number n)
  | .text template =>
    if Template.mentionsIteration template then .ok (.text template)
    else do
      let v ← Template.evaluateText context location template
      .ok (ofValue v)
  | .list items => do
    let drafts ← resolveItems context location 0 items
    .ok (.list drafts)
  | .map entries => do
    let drafts ← resolveEntries context location [] entries
    .ok (.map drafts)

/-- The resolved items of a list from position `i` on. -/
def resolveItems (context : Context) (location : String) (i : Nat) :
    List Draft → Except Failure (List Draft)
  | [] => .ok []
  | d :: rest => do
    let r ← resolve context (itemLocation location i) d
    let rs ← resolveItems context location (i + 1) rest
    .ok (r :: rs)

/-- Adds resolved entries to the ones resolved before them. -/
def resolveEntries (context : Context) (location : String) (seen : Entries Draft) :
    List (String × Draft) → Except Failure (Entries Draft)
  | [] => .ok seen
  | (template, d) :: rest =>
    -- Keys that depend on an instance are compared when the instance is evaluated.
    if Template.mentionsIteration template then do
      let r ← resolve context (entryLocation location template) d
      resolveEntries context location (seen.put template r) rest
    else do
      let text ← Template.evaluateKey context location template
      let key := Template.plain text
      if seen.has key then .error (.invalid template (.duplicateKey text) location)
      else
        let r ← resolve context (entryLocation location key) d
        resolveEntries context location (seen.put key r) rest
end

/-- The values of attributes in order. The location of each is `owner.name`. -/
def evaluateAttributes (context : Context) (owner : String) :
    Entries Draft → Except Failure (Entries Value)
  | [] => .ok []
  | (name, d) :: rest => do
    let v ← evaluate context (entryLocation owner name) d
    let vs ← evaluateAttributes context owner rest
    .ok ((name, v) :: vs)

end Draft

end Deployment
