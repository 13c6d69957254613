import Deployment.Instance
import Deployment.Resource.Gate

/-! # Counted resources

A resource with `count = n` has the instances `0` to `n - 1`. A truth value counts as one or none.
More instances than the limit are refused.
-/

namespace Deployment.Instance

/-- The number of instances that a count asks for: a truth value, or a whole number that is not
negative, also as text. -/
def wholeCount? (v : Value) : Option Nat :=
  match v.bool? with
  | some b => some (if b then 1 else 0)
  | none =>
    match v with
    | .number _ | .text _ =>
      (v.number?.bind Number.whole?).bind fun n => if 0 ≤ n.toInt then some n.toInt.toNat else none
    | _ => none

/-- The instances with the given numbers. -/
def numbered (template : Instance) : List Nat → Except Failure (List Instance)
  | [] => .ok []
  | n :: rest => do
    let i ← template.keyed (.number n) (.count n)
    let others ← numbered template rest
    .ok (i :: others)

/-- The instances of a resource by its `count`; without one, a single instance that has no key. -/
def expandCount (context : Context) (limit : Nat) (r : Resource) :
    Except Failure (List Instance) :=
  match r.attributes.get? countAttribute with
  | none => .ok [ofResource r]
  | some count =>
    let location := Draft.entryLocation r.address countAttribute
    if r.attributes.has forEachAttribute then .error (Resource.exclusive count location)
    else do
      let v ← count.evaluate context location
      match wholeCount? v with
      | none => .error (.invalid count.render (.countNotWhole (describe v)) location)
      | some n =>
        if limit < n then .error (.limitExceeded r.address n limit)
        else
          let template := ofResource { r with attributes := r.attributes.remove countAttribute }
          numbered template (List.range n)

/-- The instances of all resources by their `count`. -/
def expandCounts (context : Context) (limit : Nat) :
    List Resource → Except Failure (List Instance)
  | [] => .ok []
  | r :: rest => do
    let instances ← expandCount context limit r
    let others ← expandCounts context limit rest
    .ok (instances ++ others)

end Deployment.Instance
