import Deployment.Proofs.Draft.Survival

/-! # Binding cannot fail on resolved drafts

Binding reads every text and every key of a draft as a template, and it fails on one that is none.
A draft without such texts is `Readable`, and binding succeeds on it for every instance
(`Draft.Readable.bind`). What resolving leaves is readable (`Draft.resolve_readable`): a text that
is replaced becomes the draft of a value, in which all markers are escaped, and a text that is kept
was found to interpolate an iteration symbol, so it has been read before. Both kinds may stand in
one map or list, at any depth.
-/

namespace Deployment

/-! ## Texts -/

namespace Template

/-- The text is a template. -/
def Readable (text : String) : Prop :=
  ∃ parts, parse text false = .ok parts

/-- An escaped text is a template, whatever it was before. -/
theorem readable_plain (s : String) : Readable (plain s) :=
  ⟨Expr.textPart s, parse_plain s⟩

/-- A text in which an iteration symbol was found has been read. -/
theorem readable_of_mentionsIteration {text : String} (h : mentionsIteration text = true) :
    Readable text := by
  unfold mentionsIteration at h
  split at h
  · exact ⟨_, ‹_›⟩
  · cases h

/-- Binding reads the text and nothing else, so it succeeds on every template. -/
theorem Readable.bindText {text : String} (h : Readable text) (b : Binding) (location : String) :
    ∃ bound, bindText b location text = .ok bound := by
  obtain ⟨parts, hparts⟩ := h
  rw [Template.bindText, hparts]
  dsimp only
  split
  · exact ⟨_, rfl⟩
  · exact ⟨text, rfl⟩

end Template

namespace Draft

/-- All texts and all keys in the draft are templates. -/
inductive Readable : Draft → Prop
  | null : Readable .null
  | bool (b : Bool) : Readable (.bool b)
  | number (n : Number) : Readable (.number n)
  | text {template : String} (h : Template.Readable template) : Readable (.text template)
  | list {items : List Draft} (h : ∀ d ∈ items, Readable d) : Readable (.list items)
  | map {entries : List (String × Draft)}
      (keys : ∀ key d, (key, d) ∈ entries → Template.Readable key)
      (h : ∀ key d, (key, d) ∈ entries → Readable d) : Readable (.map entries)

/-! ## Readable drafts are bound -/

section Binding

variable {items : List Draft} {entries : List (String × Draft)}

/-- Items are bound if each of them is. -/
theorem bindItems_succeeds {b : Binding} {location : String}
    (h : ∀ d ∈ items, ∃ r, d.bind b location = .ok r) :
    ∃ bound, bindItems b location items = .ok bound := by
  induction items with
  | nil => exact ⟨[], rfl⟩
  | cons d rest ih =>
    obtain ⟨hd, hrest⟩ := List.forall_mem_cons.mp h
    rw [bindItems]
    exact Except.bind_succeeds hd fun r => Except.bind_succeeds (ih hrest) fun rs => ⟨r :: rs, rfl⟩

/-- Entries are bound if their keys are templates and their values are bound. -/
theorem bindEntries_succeeds {b : Binding} (location : String)
    (hkeys : ∀ key d, (key, d) ∈ entries → Template.Readable key)
    (h : ∀ key d, (key, d) ∈ entries → ∀ location, ∃ r, d.bind b location = .ok r) :
    ∃ bound, bindEntries b location entries = .ok bound := by
  induction entries with
  | nil => exact ⟨[], rfl⟩
  | cons entry rest ih =>
    obtain ⟨key, d⟩ := entry
    have hkey := (hkeys key d List.mem_cons_self).bindText b location
    have hd := h key d List.mem_cons_self (entryLocation location key)
    have hrest := ih (fun key d hmem => hkeys key d (List.mem_cons_of_mem _ hmem))
      fun key d hmem => h key d (List.mem_cons_of_mem _ hmem)
    rw [bindEntries]
    exact Except.bind_succeeds hkey fun key' => Except.bind_succeeds hd fun r =>
      Except.bind_succeeds hrest fun rs => ⟨(key', r) :: rs, rfl⟩

/-- A readable draft is bound for every instance, wherever it stands. -/
theorem Readable.bind {d : Draft} (h : d.Readable) (b : Binding) (location : String) :
    ∃ r, d.bind b location = .ok r := by
  induction h generalizing location with
  | null => exact ⟨.null, rfl⟩
  | bool v => exact ⟨.bool v, rfl⟩
  | number n => exact ⟨.number n, rfl⟩
  | text h =>
    rw [Draft.bind]
    exact Except.bind_succeeds (h.bindText b location) fun bound => ⟨.text bound, rfl⟩
  | list h ih =>
    rw [Draft.bind]
    exact Except.bind_succeeds (bindItems_succeeds fun d hd => ih d hd location)
      fun drafts => ⟨.list drafts, rfl⟩
  | map hkeys h ih =>
    rw [Draft.bind]
    exact Except.bind_succeeds (bindEntries_succeeds location hkeys ih)
      fun drafts => ⟨.map (Entries.ofPairs drafts), rfl⟩

/-- Readable attributes are bound, one by one. -/
theorem bindAttributes_succeeds {attributes : Entries Draft}
    (h : ∀ name d, (name, d) ∈ attributes → d.Readable) (b : Binding) (owner : String) :
    ∃ bound, bindAttributes b owner attributes = .ok bound := by
  induction attributes with
  | nil => exact ⟨[], rfl⟩
  | cons entry rest ih =>
    obtain ⟨name, d⟩ := entry
    have hd := (h name d List.mem_cons_self).bind b (entryLocation owner name)
    have hrest := ih fun name d hmem => h name d (List.mem_cons_of_mem _ hmem)
    rw [bindAttributes]
    exact Except.bind_succeeds hd fun r => Except.bind_succeeds hrest fun rs =>
      ⟨(name, r) :: rs, rfl⟩

end Binding

/-! ## Resolved drafts are readable -/

/-- A readable key and draft may be put into a readable map, in place of another entry as well. -/
theorem Readable.put {entries : Entries Draft} (h : (Draft.map entries).Readable) {key : String}
    {d : Draft} (hkey : Template.Readable key) (hd : d.Readable) :
    (Draft.map (entries.put key d)).Readable := by
  cases h with
  | map keys h =>
    refine .map (fun key' d' hmem => ?_) fun key' d' hmem => ?_
    all_goals rcases Entries.mem_put hmem with hold | hnew
    · exact keys key' d' hold
    · obtain ⟨rfl, -⟩ := Prod.mk.inj hnew
      exact hkey
    · exact h key' d' hold
    · obtain ⟨-, rfl⟩ := Prod.mk.inj hnew
      exact hd

/-- The draft of a value has only escaped texts. -/
theorem readable_ofValue (v : Value) : (ofValue v).Readable := by
  induction v with
  | null => exact .null
  | bool b => exact .bool b
  | number n => exact .number n
  | text s => exact .text (Template.readable_plain s)
  | list items ih =>
    refine .list fun d hd => ?_
    obtain ⟨v, hv, rfl⟩ := mem_ofItems.mp hd
    exact ih v hv
  | map entries ih =>
    refine .map (fun template d hmem => ?_) fun template d hmem => ?_
    all_goals obtain ⟨key, v, hv, rfl, rfl⟩ := mem_ofEntries.mp hmem
    · exact Template.readable_plain key
    · exact ih key v hv

section Resolution

variable {context : Context} {items : List Draft} {entries : List (String × Draft)}

/-- Resolved items are readable. -/
theorem resolveItems_readable
    (h : ∀ d ∈ items, ∀ location, Ensures (d.resolve context location) Readable)
    (location : String) (i : Nat) :
    Ensures (resolveItems context location i items) fun drafts => ∀ d ∈ drafts, d.Readable := by
  induction items generalizing i with
  | nil => exact .ok (by simp)
  | cons d rest ih =>
    obtain ⟨hd, hrest⟩ := List.forall_mem_cons.mp h
    rw [resolveItems]
    exact .bind (hd _) fun r hr => .bind (ih hrest (i + 1)) fun rs hrs =>
      .ok (List.forall_mem_cons.mpr ⟨hr, hrs⟩)

/-- The entries that are resolved so far make a readable map. -/
theorem resolveEntries_readable
    (h : ∀ key d, (key, d) ∈ entries → ∀ location, Ensures (d.resolve context location) Readable)
    (location : String) {seen : Entries Draft} (hseen : (map seen).Readable) :
    Ensures (resolveEntries context location seen entries) fun resolved =>
      (map resolved).Readable := by
  induction entries generalizing seen with
  | nil => exact .ok hseen
  | cons entry rest ih =>
    obtain ⟨template, d⟩ := entry
    have hd := h template d List.mem_cons_self
    have hrest {seen : Entries Draft} (hseen : (map seen).Readable) :=
      ih (fun key d hmem => h key d (List.mem_cons_of_mem _ hmem)) hseen
    rw [resolveEntries]
    split
    · rename_i hmentions
      have hkey := Template.readable_of_mentionsIteration hmentions
      exact .bind (hd _) fun r hr => hrest (hseen.put hkey hr)
    · refine .after fun text => ?_
      dsimp only
      split
      · exact .error _
      · have hkey := Template.readable_plain text
        exact .bind (hd _) fun r hr => hrest (hseen.put hkey hr)

/-- A resolved draft is readable, whether its texts were replaced or kept. -/
theorem resolve_readable (d : Draft) (location : String) :
    Ensures (d.resolve context location) Readable := by
  induction d generalizing location with
  | null => exact .ok .null
  | bool b => exact .ok (.bool b)
  | number n => exact .ok (.number n)
  | text template =>
    rw [resolve]
    split
    · exact .ok (.text (Template.readable_of_mentionsIteration ‹_›))
    · exact .after fun v => .ok (readable_ofValue v)
  | list items ih =>
    rw [resolve]
    exact .bind (resolveItems_readable ih location 0) fun drafts hdrafts => .ok (.list hdrafts)
  | map entries ih =>
    rw [resolve]
    have hempty : (map []).Readable := .map (by simp) (by simp)
    exact .bind (resolveEntries_readable ih location hempty) fun drafts hdrafts => .ok hdrafts

end Resolution

end Draft

end Deployment
