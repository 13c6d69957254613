import Deployment.Document
import Deployment.Draft.Evaluation

/-! # Gating resources and resolving their attributes

A resource whose `count` is zero or false does not exist. The attributes of all others are resolved
as far as they do not depend on an instance. `count` and `for_each` themselves are left to the
expansion, which reports their failures; having both is refused here already, before a disabled
resource could hide it.
-/

namespace Deployment.Resource

/-- The failure of a resource that has both `count` and `for_each`. -/
def exclusive (count : Draft) (location : String) : Failure :=
  .invalid count.render .countWithForEach location

/-- Whether a count switches its resource off. Text counts as what it reads as; values that are no
count at all are left to the expansion. -/
def disables (v : Value) : Bool :=
  match v with
  | .bool b => !b
  | .number n => n.isZero
  | .text _ =>
    match v.bool?, v.number? with
    | some b, _ => !b
    | none, some n => n.isZero
    | none, none => false
  | _ => false

/-- Whether the resource exists. -/
def exists? (context : Context) (r : Resource) : Except Failure Bool :=
  match r.attributes.get? countAttribute with
  | none => .ok true
  | some count =>
    let location := Draft.entryLocation r.address countAttribute
    if r.attributes.has forEachAttribute then .error (exclusive count location)
    else do
      let v ← count.evaluate context location
      .ok (!disables v)

/-- Attributes with everything evaluated that does not depend on an instance. -/
def resolveAttributes (context : Context) (address : String) :
    Entries Draft → Except Failure (Entries Draft)
  | [] => .ok []
  | (name, d) :: rest => do
    let resolved ←
      if name = countAttribute ∨ name = forEachAttribute then .ok d
      else d.resolve context (Draft.entryLocation address name)
    let others ← resolveAttributes context address rest
    .ok ((name, resolved) :: others)

/-- The resource with its attributes resolved. -/
def resolveBranches (context : Context) (r : Resource) : Except Failure Resource := do
  let attributes ← resolveAttributes context r.address r.attributes
  .ok { r with attributes }

/-- The existing resources with their attributes resolved. -/
def resolveAll (context : Context) : List Resource → Except Failure (List Resource)
  | [] => .ok []
  | r :: rest => do
    if ← exists? context r then
      let resolved ← resolveBranches context r
      let others ← resolveAll context rest
      .ok (resolved :: others)
    else resolveAll context rest

end Deployment.Resource
