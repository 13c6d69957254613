/-! # Keyed entries in order

Maps keep the order in which their keys first appeared: writing an existing key changes its value
in place, a new key goes to the end. `Entries` is the list of such entries. The operations below
look only at the first entry of a key; a list built by `put` has at most one.
-/

namespace Deployment

/-- Keys with their values, in order of first appearance. -/
abbrev Entries (α : Type) := List (String × α)

namespace Entries

variable {α β : Type}

/-- The value of a key. -/
def get? : Entries α → String → Option α
  | [], _ => none
  | (key, value) :: rest, wanted => if key = wanted then some value else get? rest wanted

/-- Whether a key has a value. -/
def has (entries : Entries α) (key : String) : Bool :=
  (entries.get? key).isSome

/-- Gives a key a value, in place if the key is present and at the end otherwise. -/
def put : Entries α → String → α → Entries α
  | [], key, value => [(key, value)]
  | (old, kept) :: rest, key, value =>
    if old = key then (old, value) :: rest else (old, kept) :: put rest key value

/-- The entries without the given key. -/
def remove : Entries α → String → Entries α
  | [], _ => []
  | (key, value) :: rest, dropped =>
    if key = dropped then rest else (key, value) :: remove rest dropped

/-- Writes entries one after the other. -/
def putAll (entries : Entries α) (more : List (String × α)) : Entries α :=
  more.foldl (fun entries entry => entries.put entry.1 entry.2) entries

/-- The entries that result from writing pairs in order: a repeated key keeps its first position
and its last value. -/
def ofPairs (pairs : List (String × α)) : Entries α :=
  putAll [] pairs

/-- The keys in order. -/
def keys (entries : Entries α) : List String :=
  entries.map (·.1)

@[simp] theorem get?_nil (key : String) : get? ([] : Entries α) key = none := rfl

@[simp] theorem get?_put_self (entries : Entries α) (key : String) (value : α) :
    (entries.put key value).get? key = some value := by
  induction entries with
  | nil => simp [put, get?]
  | cons entry rest ih => by_cases h : entry.1 = key <;> simp [put, get?, h, ih]

theorem get?_put_of_ne (entries : Entries α) {key other : String} (value : α) (h : other ≠ key) :
    (entries.put key value).get? other = entries.get? other := by
  induction entries with
  | nil => simp [put, get?, Ne.symm h]
  | cons entry rest ih =>
    by_cases hk : entry.1 = key
    · simp [put, get?, hk, Ne.symm h]
    · by_cases ho : entry.1 = other <;> simp_all [put, get?]

theorem has_iff_mem_keys (entries : Entries α) (key : String) :
    entries.has key ↔ key ∈ entries.keys := by
  induction entries with
  | nil => simp [has, keys]
  | cons entry rest ih =>
    simp only [has, keys] at ih
    by_cases h : entry.1 = key
    · simp [has, get?, keys, h]
    · simpa [has, get?, keys, h, Ne.symm h] using ih

end Entries

end Deployment
