import Deployment.Draft.Evaluation

/-! # Binding iteration symbols

An instance of a counted resource knows `count.index`, an instance of a keyed one `each.key` and
`each.value`. `Draft.bind` replaces these references by literals and writes the changed text again;
text without such references stays as it is, letter for letter. What follows the symbol in a
reference becomes attribute accesses on the literal.
-/

namespace Deployment

/-- What the iteration symbols stand for in one instance. -/
inductive Binding
  | count (index : Nat)
  | each (key : String) (value : Value)

namespace Binding

/-- The value of the symbol that a reference starts with, if it is bound. -/
def value? (b : Binding) (r : Reference) : Option Value :=
  match b with
  | .count index => if r.startsWith "count" "index" then Value.ofInt? index else none
  | .each key value =>
    if r.startsWith "each" "key" then some (.text key)
    else if r.startsWith "each" "value" then some value
    else none

/-- What a reference is replaced by. -/
def substitute (b : Binding) (r : Reference) : Expr :=
  match b.value? r with
  | some v => (r.path.drop 1).foldl .attribute (.literal v)
  | none => .reference r

end Binding

/-- Template text with the bound references replaced. -/
def Template.bindText (b : Binding) (location template : String) : Except Failure String :=
  match Template.parse template false with
  | .error e => .error (.invalid template (.unreadable e) location)
  | .ok parts =>
    if parts.references.any fun r => (b.value? r).isSome then
      .ok ((parts.replace b.substitute).render false)
    else .ok template

namespace Draft

mutual
/-- The draft with the bound references replaced in all texts and keys. -/
def bind (b : Binding) (location : String) : Draft → Except Failure Draft
  | .null => .ok .null
  | .bool v => .ok (.bool v)
  | .number n => .ok (.number n)
  | .text template => do
    let bound ← Template.bindText b location template
    .ok (.text bound)
  | .list items => do
    let drafts ← bindItems b location items
    .ok (.list drafts)
  | .map entries => do
    let drafts ← bindEntries b location entries
    .ok (.map (Entries.ofPairs drafts))

/-- The bound items of a list. -/
def bindItems (b : Binding) (location : String) : List Draft → Except Failure (List Draft)
  | [] => .ok []
  | d :: rest => do
    let r ← bind b location d
    let rs ← bindItems b location rest
    .ok (r :: rs)

/-- The bound entries of a map. -/
def bindEntries (b : Binding) (location : String) :
    List (String × Draft) → Except Failure (List (String × Draft))
  | [] => .ok []
  | (template, d) :: rest => do
    let key ← Template.bindText b location template
    let r ← bind b (entryLocation location template) d
    let rs ← bindEntries b location rest
    .ok ((key, r) :: rs)
end

/-- Attributes with the bound references replaced. The location of each is `owner.name`. -/
def bindAttributes (b : Binding) (owner : String) :
    Entries Draft → Except Failure (Entries Draft)
  | [] => .ok []
  | (name, d) :: rest => do
    let r ← bind b (entryLocation owner name) d
    let rs ← bindAttributes b owner rest
    .ok ((name, r) :: rs)

end Draft

end Deployment
