import Deployment.Entries
import Mathlib.Data.List.Nodup

/-! # Maps with different keys

Nothing in the type of entries keeps a key from being there twice. Every list that is built by `put`
has different keys, though, and on those lists `Entries` is a map: every entry is the one that is
found under its key. Writing pairs with different keys gives the pairs back, and it is only then
that no pair is lost (`ofPairs_eq_self_iff`).
-/

namespace Deployment.Entries

variable {α : Type} {entries more : Entries α} {key : String} {value : α}

/-! ## Keys that are there -/

@[simp] theorem keys_append (entries more : Entries α) :
    keys (entries ++ more) = entries.keys ++ more.keys :=
  List.map_append

/-- Nothing is found under a key that is not there. -/
theorem get?_eq_none_iff : entries.get? key = none ↔ key ∉ entries.keys := by
  rw [← has_iff_mem_keys, has, Option.isSome_iff_ne_none, not_not]

theorem has_eq_false_iff : entries.has key = false ↔ entries.get? key = none := by
  simp [has]

/-- Of two entries under one key the first one is found. -/
theorem get?_append (before after : Entries α) (key : String) :
    get? (before ++ after) key = (before.get? key).or (get? after key) := by
  induction before with
  | nil => rfl
  | cons entry rest ih =>
    obtain ⟨old, kept⟩ := entry
    by_cases hk : old = key <;> simp [get?, hk, ih]

/-- What is found is an entry. -/
theorem mem_of_get? (h : entries.get? key = some value) : (key, value) ∈ entries := by
  induction entries with
  | nil => cases h
  | cons entry rest ih =>
    obtain ⟨old, kept⟩ := entry
    by_cases hk : old = key
    · simp only [get?, hk, if_true, Option.some.injEq] at h
      simp [hk, h]
    · simp only [get?, hk, if_false] at h
      exact List.mem_cons_of_mem _ (ih h)

/-- With different keys every entry is the one that is found. -/
theorem get?_eq_some_iff (hnodup : entries.keys.Nodup) :
    entries.get? key = some value ↔ (key, value) ∈ entries := by
  refine ⟨mem_of_get?, fun h => ?_⟩
  induction entries with
  | nil => cases h
  | cons entry rest ih =>
    obtain ⟨old, kept⟩ := entry
    simp only [keys, List.map_cons, List.nodup_cons] at hnodup
    rcases List.mem_cons.mp h with heq | hrest
    · cases heq
      simp [get?]
    · have hne : old ≠ key := by
        rintro rfl
        exact hnodup.1 (List.mem_map.mpr ⟨_, hrest, rfl⟩)
      simpa [get?, hne] using ih hnodup.2 hrest

/-! ## Writing a key -/

/-- A new key goes to the end. -/
theorem put_eq_append (h : entries.get? key = none) (value : α) :
    entries.put key value = entries ++ [(key, value)] := by
  induction entries with
  | nil => rfl
  | cons entry rest ih =>
    obtain ⟨old, kept⟩ := entry
    by_cases hk : old = key
    · simp [get?, hk] at h
    · simp only [get?, hk, if_false] at h
      simp [put, hk, ih h]

/-- A key that is there stays where it is. -/
theorem keys_put_of_mem (h : key ∈ entries.keys) (value : α) :
    (entries.put key value).keys = entries.keys := by
  induction entries with
  | nil => cases h
  | cons entry rest ih =>
    obtain ⟨old, kept⟩ := entry
    by_cases hk : old = key
    · simp [put, hk, keys]
    · have hrest : key ∈ keys rest := by
        simpa [keys, Ne.symm hk] using h
      simpa [put, hk, keys] using ih hrest

/-- Writing a key never makes it stand twice. -/
theorem nodup_keys_put (h : entries.keys.Nodup) (key : String) (value : α) :
    (entries.put key value).keys.Nodup := by
  by_cases hk : key ∈ entries.keys
  · rw [keys_put_of_mem hk]
    exact h
  · rw [put_eq_append (get?_eq_none_iff.mpr hk), keys_append]
    show (entries.keys ++ [key]).Nodup
    rw [← List.concat_eq_append]
    exact h.concat hk

/-- In front of other keys, a new key is written behind the ones before it. -/
theorem append_cons_eq_put (h : (keys (entries ++ (key, value) :: more)).Nodup) :
    entries.get? key = none ∧ entries ++ (key, value) :: more = entries.put key value ++ more := by
  have hnew : entries.get? key = none := by
    rw [keys_append, List.nodup_append] at h
    exact get?_eq_none_iff.mpr fun hmem => h.2.2 key hmem key (by simp [keys]) rfl
  rw [put_eq_append hnew, List.append_assoc, List.singleton_append]
  exact ⟨hnew, rfl⟩

/-- An entry was there before or is the one that was written. -/
theorem mem_put {entry : String × α} (h : entry ∈ entries.put key value) :
    entry ∈ entries ∨ entry = (key, value) := by
  induction entries with
  | nil =>
    obtain rfl := List.mem_singleton.mp h
    exact .inr rfl
  | cons first rest ih =>
    obtain ⟨old, kept⟩ := first
    rw [put] at h
    split at h
    · subst old
      rcases List.mem_cons.mp h with rfl | hrest
      · exact .inr rfl
      · exact .inl (List.mem_cons_of_mem _ hrest)
    · rcases List.mem_cons.mp h with rfl | hrest
      · exact .inl List.mem_cons_self
      · exact (ih hrest).imp_left (List.mem_cons_of_mem _)

/-! ## Removing a key -/

/-- Removing a key takes it away once, at its first place. -/
theorem keys_remove (entries : Entries α) (key : String) :
    (entries.remove key).keys = entries.keys.erase key := by
  induction entries with
  | nil => rfl
  | cons entry rest ih =>
    obtain ⟨old, kept⟩ := entry
    by_cases hk : old = key
    · simp [remove, keys, hk]
    · have hcons : (remove ((old, kept) :: rest) key).keys = old :: (remove rest key).keys := by
        simp [remove, keys, hk]
      rw [hcons, ih]
      exact (List.erase_cons_tail (by simpa using hk)).symm

/-- Removing a key adds nothing. -/
theorem remove_subset (entries : Entries α) (key : String) : entries.remove key ⊆ entries := by
  induction entries with
  | nil => exact List.Subset.refl _
  | cons entry rest ih =>
    rw [remove]
    split
    · exact List.subset_cons_self _ _
    · exact List.cons_subset_cons _ ih

theorem keys_remove_subset (entries : Entries α) (key : String) :
    (entries.remove key).keys ⊆ entries.keys :=
  List.map_subset _ (remove_subset entries key)

/-- Where no key is there twice, a removed one is gone. -/
theorem not_mem_keys_remove (h : entries.keys.Nodup) : key ∉ (entries.remove key).keys := by
  rw [keys_remove]
  exact h.not_mem_erase

/-! ## Writing pairs -/

/-- Writing pairs in order keeps the keys different. -/
theorem nodup_keys_putAll (h : entries.keys.Nodup) (more : List (String × α)) :
    (entries.putAll more).keys.Nodup := by
  induction more generalizing entries with
  | nil => exact h
  | cons entry rest ih => exact ih (nodup_keys_put h entry.1 entry.2)

/-- Whatever pairs are written, the keys are different in the end. -/
theorem nodup_keys_ofPairs (pairs : List (String × α)) : (ofPairs pairs).keys.Nodup := by
  apply nodup_keys_putAll
  exact List.nodup_nil

/-- The entries were there before or are among the pairs. -/
theorem mem_putAll {entry : String × α} (h : entry ∈ entries.putAll more) :
    entry ∈ entries ∨ entry ∈ more := by
  induction more generalizing entries with
  | nil => exact .inl h
  | cons pair rest ih =>
    rcases ih h with hput | hmem
    · rcases mem_put hput with hold | rfl
      · exact .inl hold
      · exact .inr List.mem_cons_self
    · exact .inr (List.mem_cons_of_mem _ hmem)

/-- Every entry is one of the pairs that were written. -/
theorem mem_ofPairs {pairs : List (String × α)} {entry : String × α} (h : entry ∈ ofPairs pairs) :
    entry ∈ pairs :=
  (mem_putAll h).resolve_left List.not_mem_nil

/-- Pairs with new and different keys go to the end. -/
theorem putAll_eq_append {more : List (String × α)} (h : (keys (entries ++ more)).Nodup) :
    entries.putAll more = entries ++ more := by
  induction more generalizing entries with
  | nil => exact (List.append_nil _).symm
  | cons entry rest ih =>
    obtain ⟨-, hsplit⟩ := append_cons_eq_put h
    rw [hsplit] at h ⊢
    exact ih h

/-- No pair is lost exactly if all keys are different. -/
theorem ofPairs_eq_self_iff {pairs : List (String × α)} :
    ofPairs pairs = pairs ↔ (keys pairs).Nodup := by
  constructor
  · intro h
    rw [← h]
    exact nodup_keys_ofPairs pairs
  · intro h
    exact putAll_eq_append h

/-- Writing pairs gives a list with the same keys exactly if these are different and it is the list
of the pairs. -/
theorem ofPairs_eq_iff {pairs kept : List (String × α)} (hkeys : keys kept = keys pairs) :
    ofPairs pairs = kept ↔ (keys pairs).Nodup ∧ pairs = kept := by
  constructor
  · intro h
    -- Whatever was written one by one has different keys, and then nothing was lost on the way.
    have hnodup : (keys pairs).Nodup := by
      rw [← hkeys, ← h]
      exact nodup_keys_ofPairs pairs
    exact ⟨hnodup, (ofPairs_eq_self_iff.mpr hnodup).symm.trans h⟩
  · rintro ⟨hnodup, rfl⟩
    exact ofPairs_eq_self_iff.mpr hnodup

end Deployment.Entries
