import Deployment.Proofs.Draft.Entrywise
import Deployment.Proofs.Draft.Staging

/-! # Values survive as data

The draft of a value holds the texts and keys of the value with their markers escaped. It
interpolates nothing, so no context can change what it is evaluated to, and with every entry of
every map kept it is evaluated to the value it was made from. Escaping is injective, so the keys of
a map are as different in the draft as they are in the value. What evaluating the draft gives is the
value itself, with the entries of its maps in order (`Draft.ofValue_survives`).
-/

namespace Deployment.Draft

/-- All maps in the draft, at any depth, have different keys, as these are written. -/
inductive Distinct : Draft → Prop
  | null : Distinct .null
  | bool (b : Bool) : Distinct (.bool b)
  | number (n : Number) : Distinct (.number n)
  | text (template : String) : Distinct (.text template)
  | list {items : List Draft} (h : ∀ d ∈ items, Distinct d) : Distinct (.list items)
  | map {entries : List (String × Draft)} (nodup : (Entries.keys entries).Nodup)
      (h : ∀ key d, (key, d) ∈ entries → Distinct d) : Distinct (.map entries)

/-! ## Parts of the draft of a value -/

/-- The draft of a list has the drafts of its items. -/
theorem mem_ofItems {items : List Value} {d : Draft} :
    d ∈ ofItems items ↔ ∃ v ∈ items, ofValue v = d := by
  induction items with
  | nil => simp [ofItems]
  | cons v rest ih => simp [ofItems, ih, eq_comm]

/-- The draft of a map has the drafts of its entries, with the markers of the keys escaped. -/
theorem mem_ofEntries {entries : List (String × Value)} {template : String} {d : Draft} :
    (template, d) ∈ ofEntries entries ↔
      ∃ key v, (key, v) ∈ entries ∧ Template.plain key = template ∧ ofValue v = d := by
  induction entries with
  | nil => simp [ofEntries]
  | cons entry rest ih =>
    obtain ⟨key, v⟩ := entry
    simp only [ofEntries, List.mem_cons, Prod.mk.injEq, ih]
    constructor
    · rintro (⟨rfl, rfl⟩ | ⟨key', v', hmem, hkey, hv⟩)
      · exact ⟨key, v, .inl ⟨rfl, rfl⟩, rfl, rfl⟩
      · exact ⟨key', v', .inr hmem, hkey, hv⟩
    · rintro ⟨key', v', ⟨rfl, rfl⟩ | hmem, hkey, hv⟩
      · exact .inl ⟨hkey.symm, hv.symm⟩
      · exact .inr ⟨key', v', hmem, hkey, hv⟩

/-- The maps of the draft have as many different keys as those of the value. -/
theorem distinct_ofValue_iff {v : Value} : (ofValue v).Distinct ↔ v.Distinct := by
  induction v with
  | null => exact iff_of_true .null .null
  | bool b => exact iff_of_true (.bool b) (.bool b)
  | number n => exact iff_of_true (.number n) (.number n)
  | text s => exact iff_of_true (.text _) (.text s)
  | list items ih =>
    rw [ofValue]
    constructor
    · intro h
      cases h with
      | list h => exact .list fun v hv => (ih v hv).mp (h _ (mem_ofItems.mpr ⟨v, hv, rfl⟩))
    · intro h
      refine .list fun d hd => ?_
      obtain ⟨v, hv, rfl⟩ := mem_ofItems.mp hd
      exact (ih v hv).mpr (h.mem hv)
  | map entries ih =>
    rw [ofValue]
    constructor
    · intro h
      cases h with
      | map nodup h =>
        rw [keys_ofEntries] at nodup
        refine .map nodup.of_map fun key v hmem => ?_
        exact (ih key v hmem).mp (h _ _ (mem_ofEntries.mpr ⟨key, v, hmem, rfl, rfl⟩))
    · intro h
      refine .map (nodup_keys_ofEntries h.nodup) fun template d hmem => ?_
      obtain ⟨key, v, hv, -, rfl⟩ := mem_ofEntries.mp hmem
      exact (ih key v hv).mpr (h.entry hv)

/-- Escaped text interpolates nothing, so nothing in it refers to a variable. -/
theorem textReferences_plain (s : String) :
    Template.textReferences (Template.plain s) = [] := by
  rw [Template.textReferences, Template.parse_plain]
  exact Template.references_textPart s

/-- In the draft of a value nothing is interpolated. -/
theorem references_ofValue (v : Value) : (ofValue v).references = [] := by
  refine List.eq_nil_iff_forall_not_mem.mpr fun r hr => ?_
  -- A reference could only be in a text, and all texts are escaped.
  induction v with
  | null => cases hr
  | bool b => cases hr
  | number n => cases hr
  | text s =>
    rw [ofValue, references, textReferences_plain] at hr
    cases hr
  | list items ih =>
    rw [ofValue, references] at hr
    obtain ⟨d, hd, hr⟩ := mem_referencesOfItems.mp hr
    obtain ⟨v, hv, rfl⟩ := mem_ofItems.mp hd
    exact ih v hv hr
  | map entries ih =>
    rw [ofValue, references] at hr
    obtain ⟨template, d, hmem, hr⟩ := mem_referencesOfEntries.mp hr
    obtain ⟨key, v, hv, rfl, rfl⟩ := mem_ofEntries.mp hmem
    rw [textReferences_plain] at hr
    exact ih key v hv (hr.resolve_left List.not_mem_nil)

/-! ## Evaluating it -/

section Evaluation

variable {context : Context}

/-- A list comes back if its items do. -/
theorem evaluateItemsEntrywise?_ofItems {items : List Value}
    (h : ∀ v ∈ items, (ofValue v).evaluateEntrywise? context = some v) :
    evaluateItemsEntrywise? context (ofItems items) = some items := by
  induction items with
  | nil => rfl
  | cons v rest ih =>
    obtain ⟨hv, hrest⟩ := List.forall_mem_cons.mp h
    rw [ofItems]
    exact evaluateItemsEntrywise?_cons.mpr ⟨v, rest, hv, ih hrest, rfl⟩

/-- A map comes back entry by entry if its values do. Keys are never taken together here. -/
theorem evaluateEntriesEntrywise?_ofEntries {entries : List (String × Value)}
    (h : ∀ key v, (key, v) ∈ entries → (ofValue v).evaluateEntrywise? context = some v) :
    evaluateEntriesEntrywise? context (ofEntries entries) = some entries := by
  induction entries with
  | nil => rfl
  | cons entry rest ih =>
    obtain ⟨key, v⟩ := entry
    have hrest := ih fun key v hmem => h key v (List.mem_cons_of_mem _ hmem)
    rw [ofEntries]
    exact evaluateEntriesEntrywise?_cons.mpr
      ⟨key, v, rest, Template.evaluateKey_plain .., h key v List.mem_cons_self, hrest, rfl⟩

/-- Every text and key has its value back, also where a key stands twice. -/
theorem evaluateEntrywise?_ofValue (v : Value) :
    (ofValue v).evaluateEntrywise? context = some v := by
  induction v with
  | null => rfl
  | bool b => rfl
  | number n => rfl
  | text s =>
    rw [ofValue, evaluateEntrywise?, Template.evaluateText_plain]
    rfl
  | list items ih =>
    rw [ofValue, evaluateEntrywise?, evaluateItemsEntrywise?_ofItems ih]
    rfl
  | map entries ih =>
    rw [ofValue, evaluateEntrywise?, evaluateEntriesEntrywise?_ofEntries ih]
    rfl

/-- The values in scope play no part, whatever they are. -/
theorem evaluate_ofValue_settles (v : Value) (context : Context) (location : String) :
    Settles ((ofValue v).evaluate context location) v v.Distinct := by
  have hempty : (⟨[], []⟩ : Context).Distinct := ⟨by simp, by simp⟩
  have hsame : (ofValue v).evaluate context location =
      (ofValue v).evaluate ⟨[], []⟩ location := by
    apply evaluate_congr
    simp [references_ofValue]
  rw [hsame]
  exact evaluate_settles hempty (evaluateEntrywise?_ofValue v) location

end Evaluation

/-- Nothing in the draft of a value is an expression, and its maps have different keys exactly if
those of the value do. Then it is evaluated to the value itself, in every context and wherever it
stands, and else to nothing: a key that is there twice is reported. -/
theorem ofValue_survives (v : Value) :
    (ofValue v).references = [] ∧ ((ofValue v).Distinct ↔ v.Distinct) ∧
      ∀ context location,
        (∀ w, (ofValue v).evaluate context location = .ok w ↔ v.Distinct ∧ w = v) ∧
        (¬v.Distinct → ReportsDuplicate ((ofValue v).evaluate context location)) := by
  refine ⟨references_ofValue v, distinct_ofValue_iff, fun context location => ?_⟩
  rcases evaluate_ofValue_settles v context location with ⟨hdistinct, hok⟩ | ⟨hnot, hreports⟩
  · refine ⟨fun w => ?_, fun hnot => absurd hdistinct hnot⟩
    rw [hok, Except.ok.injEq, eq_comm]
    exact (and_iff_right hdistinct).symm
  · refine ⟨fun w => ?_, fun _ => hreports⟩
    obtain ⟨template, key, place, hreports⟩ := hreports
    rw [hreports]
    exact iff_of_false nofun fun h => hnot h.1

/-- Text and keys full of markers, some of them one inside the other. -/
example :
    (ofValue (.map [("$\x7bvar.a\x7d", .list [.text "$$$\x7b%%\x7b%$", .null]),
      ("$$\x7bvar.a\x7d", .text "%\x7bif\x7d")])).evaluate ⟨[("a", .bool true)], []⟩ "tags" =
    .ok (.map [("$\x7bvar.a\x7d", .list [.text "$$$\x7b%%\x7b%$", .null]),
      ("$$\x7bvar.a\x7d", .text "%\x7bif\x7d")]) := by cbv

end Deployment.Draft
