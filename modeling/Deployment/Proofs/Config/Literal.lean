import Deployment.Proofs.Document.Distinct
import Deployment.Proofs.Draft.Staging

/-! # Literal terms

A literal is a term that is plain data in the source already: it is built from null, truth values,
numbers, texts, arrays, and objects whose keys are bare names or quoted texts. It is converted in
two ways. As the default of a variable it has a value at once; as an attribute it becomes a draft,
in which the markers of texts and keys are escaped, and that is evaluated later. Both ways give the
same value (`Term.evaluate_toDraft`).

The conversions go through the term side by side, and the draft is always the draft of the value
(`IsLiteral.converts`). This holds for objects with repeated keys as well: both conversions keep the
first position and the last value of a key, and escaping keeps different keys apart.
-/

namespace Deployment

namespace Config

/-- A bare name or a quoted text. -/
inductive Term.IsLiteralKey : Term → Prop
  | bare (name : String) : IsLiteralKey (.variable name)
  | quoted (s : String) : IsLiteralKey (.text s)

/-- A term that is plain data. -/
inductive Term.IsLiteral : Term → Prop
  | null : IsLiteral .null
  | bool (b : Bool) : IsLiteral (.bool b)
  | number (n : Numeral) : IsLiteral (.number n)
  | text (s : String) : IsLiteral (.text s)
  | array {items : List Term} (h : ∀ t ∈ items, IsLiteral t) : IsLiteral (.array items)
  | object {entries : List (Term × Term)} (hkeys : ∀ key t, (key, t) ∈ entries → key.IsLiteralKey)
      (h : ∀ key t, (key, t) ∈ entries → IsLiteral t) : IsLiteral (.object entries)

/-- The term has a value, and its draft is the draft of that value. -/
def Term.Converts (t : Term) : Prop :=
  ∃ v, t.toValue = .ok v ∧ t.toDraft = .ofValue v

/-- A literal key has the same name in both conversions, escaped in the draft. -/
theorem Term.IsLiteralKey.converts {key : Term} (h : key.IsLiteralKey) :
    ∃ name, literalKey key = .ok name ∧ draftKey key = Template.plain name := by
  cases h with
  | bare name => exact ⟨name, rfl, rfl⟩
  | quoted s => exact ⟨s, rfl, rfl⟩

/-- Items that convert make a list that does. -/
theorem itemValues_converts {items : List Term} (h : ∀ t ∈ items, t.Converts) :
    ∃ vs, itemValues items = .ok vs ∧ itemDrafts items = Draft.ofItems vs := by
  induction items with
  | nil => exact ⟨[], rfl, rfl⟩
  | cons t rest ih =>
    obtain ⟨ht, hrest⟩ := List.forall_mem_cons.mp h
    obtain ⟨v, hvalue, hdraft⟩ := ht
    obtain ⟨vs, hvalues, hdrafts⟩ := ih hrest
    refine ⟨v :: vs, ?_, ?_⟩
    · rw [itemValues, hvalue, hvalues]
      rfl
    · rw [itemDrafts, hdraft, hdrafts, Draft.ofItems]

/-- Entries that convert are the same pairs in both conversions, before they are written into a map.
-/
theorem entryValues_converts {entries : List (Term × Term)}
    (hkeys : ∀ key t, (key, t) ∈ entries → key.IsLiteralKey)
    (h : ∀ key t, (key, t) ∈ entries → t.Converts) :
    ∃ pairs, entryValues entries = .ok pairs ∧ entryDrafts entries = Draft.ofEntries pairs := by
  induction entries with
  | nil => exact ⟨[], rfl, rfl⟩
  | cons entry rest ih =>
    obtain ⟨key, t⟩ := entry
    obtain ⟨name, hname, hplain⟩ := (hkeys key t List.mem_cons_self).converts
    obtain ⟨v, hvalue, hdraft⟩ := h key t List.mem_cons_self
    obtain ⟨pairs, hpairs, hdrafts⟩ := ih
      (fun key t hmem => hkeys key t (List.mem_cons_of_mem _ hmem))
      (fun key t hmem => h key t (List.mem_cons_of_mem _ hmem))
    refine ⟨(name, v) :: pairs, ?_, ?_⟩
    · rw [entryValues, hname]
      show (do
        let v ← t.toValue
        .ok ((name, v) :: (← entryValues rest))) = _
      rw [hvalue, hpairs]
      rfl
    · rw [entryDrafts, hplain, hdraft, hdrafts, Draft.ofEntries]

/-- The two conversions of a literal do the same to it. -/
theorem Term.IsLiteral.converts {t : Term} (h : t.IsLiteral) : t.Converts := by
  induction h with
  | null => exact ⟨.null, rfl, rfl⟩
  | bool b => exact ⟨.bool b, rfl, rfl⟩
  | number n => exact ⟨.number n.toNumber, rfl, rfl⟩
  | text s => exact ⟨.text s, rfl, rfl⟩
  | array _ ih =>
    obtain ⟨vs, hvalues, hdrafts⟩ := itemValues_converts ih
    refine ⟨.list vs, ?_, ?_⟩
    · rw [toValue, hvalues]
      rfl
    · rw [toDraft, hdrafts, Draft.ofValue]
  | object hkeys _ ih =>
    obtain ⟨pairs, hvalues, hdrafts⟩ := entryValues_converts hkeys ih
    refine ⟨.map (Entries.ofPairs pairs), ?_, ?_⟩
    · rw [toValue, hvalues]
      rfl
    · rw [toDraft, hdrafts, Draft.ofPairs_ofEntries, Draft.ofValue]

/-- A literal has a value, and its draft is evaluated to the very same value, in every context and
wherever it stands. -/
theorem Term.evaluate_toDraft {t : Term} (h : t.IsLiteral) :
    ∃ v, t.toValue = .ok v ∧
      ∀ context location, t.toDraft.evaluate context location = .ok v := by
  obtain ⟨v, hvalue, hdraft⟩ := h.converts
  refine ⟨v, hvalue, fun context location => ?_⟩
  rw [hdraft]
  exact Draft.evaluate_ofValue (t.toValue_distinct v hvalue) context location

/-- An object with one key in both spellings, around a key full of markers and an integer that fits
no 64 bits. -/
def keyedLiteral : Term :=
  .object [(.variable "a", .number (.integer 1)),
    (.text "$\x7bvar.a\x7d", .array [.text "$$\x7b%\x7b", .null, .number (.integer (2 ^ 63))]),
    (.text "a", .object [(.variable "b", .bool true)])]

/-- The later spelling gives the value, at the place of the first one. -/
def keyedValue : Value :=
  .map [("a", .map [("b", .bool true)]),
    ("$\x7bvar.a\x7d",
      .list [.text "$$\x7b%\x7b", .null, .number (.decimal (Float.ofInt (2 ^ 63)))])]

theorem keyedLiteral_isLiteral : keyedLiteral.IsLiteral := by
  refine .object ?_ ?_
  · simp only [List.mem_cons, Prod.mk.injEq, List.not_mem_nil, or_false]
    rintro key t (⟨rfl, -⟩ | ⟨rfl, -⟩ | ⟨rfl, -⟩)
    · exact .bare _
    · exact .quoted _
    · exact .quoted _
  · simp only [List.mem_cons, Prod.mk.injEq, List.not_mem_nil, or_false]
    rintro key t (⟨-, rfl⟩ | ⟨-, rfl⟩ | ⟨-, rfl⟩)
    · exact .number _
    · exact .array (by simpa using ⟨.text _, .null, .number _⟩)
    · exact .object (by simpa using .bare _) (by simpa using .bool _)

/-- Both conversions keep one entry for the key in two spellings, and the integer as a decimal. -/
theorem keyedLiteral_evaluate : keyedLiteral.IsLiteral ∧
    keyedLiteral.toValue = .ok keyedValue ∧
    ∀ context location, keyedLiteral.toDraft.evaluate context location = .ok keyedValue := by
  obtain ⟨v, hvalue, hevaluate⟩ := Term.evaluate_toDraft keyedLiteral_isLiteral
  have hkeyed : keyedLiteral.toValue = .ok keyedValue := by rfl
  obtain rfl := Except.ok.inj (hvalue.symm.trans hkeyed)
  exact ⟨keyedLiteral_isLiteral, hkeyed, hevaluate⟩

end Config

end Deployment
