import Deployment.Instance

/-! # Keyed resources

A resource with `for_each` has one instance for every entry of a map, or for every distinct element
of a list of texts, numbers and truth values, keyed by the text of the element.
-/

namespace Deployment.Instance

/-- The key of an element of a set. -/
def elementKey (v : Value) : Except Reason String :=
  match v.text? with
  | some key => .ok key
  | none => .error (.elementNotPrimitive (describe v))

/-- Adds the elements of a set whose keys are new. -/
def elements (seen : Entries Value) : List Value → Except Reason (Entries Value)
  | [] => .ok seen
  | v :: rest => do
    let key ← elementKey v
    elements (if seen.has key then seen else seen.put key v) rest

/-- The keys and values that a collection is iterated over. -/
def iterated : Value → Except Reason (Entries Value)
  | .map entries => .ok entries
  | .list items => elements [] items
  | v => .error (.notIterable (describe v))

/-- The instances with the given keys. -/
def ofEntries (template : Instance) : Entries Value → Except Failure (List Instance)
  | [] => .ok []
  | (key, v) :: rest => do
    let i ← template.keyed (.text key) (.each key v)
    let others ← ofEntries template rest
    .ok (i :: others)

/-- The instances that an instance stands for by its `for_each`; itself if it has none. -/
def expandForEach (context : Context) (limit : Nat) (i : Instance) :
    Except Failure (List Instance) :=
  match i.attributes.get? forEachAttribute with
  | none => .ok [i]
  | some forEach => do
    let location := Draft.entryLocation i.address forEachAttribute
    let v ← forEach.evaluate context location
    match iterated v with
    | .error reason => .error (.invalid forEach.render reason location)
    | .ok entries =>
      if limit < entries.length then .error (.limitExceeded i.address entries.length limit)
      else ofEntries { i with attributes := i.attributes.remove forEachAttribute } entries

/-- Expands the instances that have no key yet by their `for_each`. -/
def expandForEachs (context : Context) (limit : Nat) :
    List Instance → Except Failure (List Instance)
  | [] => .ok []
  | i :: rest => do
    let instances ← if i.key.isNone then expandForEach context limit i else .ok [i]
    let others ← expandForEachs context limit rest
    .ok (instances ++ others)

end Deployment.Instance
