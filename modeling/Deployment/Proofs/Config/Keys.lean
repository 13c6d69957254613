import Deployment.Config.Literal
import Deployment.Proofs.Draft.Entrywise
import Deployment.Proofs.Draft.Staging

/-! # Keys that are there twice

Evaluating a draft refuses a key that a map holds already, whichever way the two keys are spelled
(`Draft.evaluate_settles_keys`). But a draft is made from a term first, and the map of an object is
built by writing its entries in order: of two keys that are spelled alike the draft keeps one, with
the later value, and the evaluation finds nothing to refuse. So a draft has all entries of its term
exactly if no two keys of an object are spelled alike (`Config.Term.toDraft_eq_entrywise_iff`), and
then the evaluation reports every key that is there twice.
-/

namespace Deployment

namespace Draft

variable {context : Context}

/-! ## Evaluation -/

/-- Two keys that evaluate to the same text. -/
def SameKey (context : Context) (template other : String) : Prop :=
  ∃ text, Template.evaluateKey context "" template = .ok text ∧
    Template.evaluateKey context "" other = .ok text

/-- Two keys of a map evaluate to the same text, in some map of the draft. -/
inductive RepeatsKey (context : Context) : Draft → Prop
  | here {entries : List (String × Draft)} {first second : String × Draft}
      (h : [first, second].Sublist entries) (hkey : SameKey context first.1 second.1) :
      RepeatsKey context (.map entries)
  | entry {entries : List (String × Draft)} {key : String} {d : Draft} (hmem : (key, d) ∈ entries)
      (h : RepeatsKey context d) : RepeatsKey context (.map entries)
  | item {items : List Draft} {d : Draft} (hmem : d ∈ items) (h : RepeatsKey context d) :
      RepeatsKey context (.list items)

/-- A list has no keys of its own, so it repeats one only if an item does. -/
theorem not_repeatsKey_list {items : List Draft} :
    ¬(list items).RepeatsKey context ↔ ∀ d ∈ items, ¬d.RepeatsKey context := by
  constructor
  · exact fun h d hd hrepeats => h (.item hd hrepeats)
  · intro h hrepeats
    cases hrepeats with
    | item hd hrepeats => exact h _ hd hrepeats

/-- The keys of the entries are not among the ones seen, differ from each other, and differ in every
value. -/
structure Unrepeated (context : Context) (seen : Entries Value) (entries : List (String × Draft)) :
    Prop where
  fresh : ∀ entry ∈ entries, ∀ text, Template.evaluateKey context "" entry.1 = .ok text →
    text ∉ seen.keys
  apart : entries.Pairwise fun entry other => ¬SameKey context entry.1 other.1
  below : ∀ entry ∈ entries, ¬entry.2.RepeatsKey context

/-- At the start of a map no key has been seen, and all there is to ask is that the map repeats
none. -/
theorem unrepeated_nil_iff {entries : List (String × Draft)} :
    Unrepeated context [] entries ↔ ¬(map entries).RepeatsKey context := by
  constructor
  · rintro h hrepeats
    cases hrepeats with
    | here hsub hkey => exact List.pairwise_iff_forall_sublist.mp h.apart hsub hkey
    | entry hmem hrepeats => exact h.below _ hmem hrepeats
  · intro h
    refine ⟨fun _ _ _ _ => List.not_mem_nil, ?_, ?_⟩
    · exact List.pairwise_iff_forall_sublist.mpr fun hsub hkey => h (.here hsub hkey)
    · exact fun entry hmem hrepeats => h (.entry hmem hrepeats)

/-- A new key is seen by the entries behind it. -/
theorem unrepeated_cons_iff {seen : Entries Value} {template key : String} {d : Draft} {v : Value}
    {rest : List (String × Draft)} (hkey : Template.evaluateKey context "" template = .ok key)
    (hnew : key ∉ seen.keys) (hd : ¬d.RepeatsKey context) :
    Unrepeated context seen ((template, d) :: rest) ↔ Unrepeated context (seen.put key v) rest := by
  have hkeys : (seen.put key v).keys = seen.keys ++ [key] := by
    rw [Entries.put_eq_append (Entries.get?_eq_none_iff.mpr hnew), Entries.keys_append]
    rfl
  -- What is asked of the first entry and of pairs with it is what the longer list of seen keys asks
  -- of the entries behind it.
  constructor
  · intro h
    obtain ⟨hfirst, hrest⟩ := List.pairwise_cons.mp h.apart
    refine ⟨fun entry hmem text htext hseen => ?_, hrest,
      fun entry hmem => h.below entry (List.mem_cons_of_mem _ hmem)⟩
    rw [hkeys] at hseen
    rcases List.mem_append.mp hseen with hold | hlast
    · exact h.fresh entry (List.mem_cons_of_mem _ hmem) text htext hold
    · obtain rfl := List.mem_singleton.mp hlast
      exact hfirst entry hmem ⟨text, hkey, htext⟩
  · intro h
    refine ⟨List.forall_mem_cons.mpr ⟨?_, ?_⟩, List.pairwise_cons.mpr ⟨?_, h.apart⟩,
      List.forall_mem_cons.mpr ⟨hd, h.below⟩⟩
    · rintro text htext
      obtain rfl := Except.ok.inj (hkey.symm.trans htext)
      exact hnew
    · intro entry hmem text htext hseen
      refine h.fresh entry hmem text htext ?_
      rw [hkeys]
      exact List.mem_append_left _ hseen
    · rintro entry hmem ⟨text, htemplate, htext⟩
      obtain rfl := Except.ok.inj (hkey.symm.trans htemplate)
      refine h.fresh entry hmem key htext ?_
      rw [hkeys]
      exact List.mem_append_right _ (List.mem_singleton_self key)

/-- The items of a list are settled one by one: the first item that repeats a key is the one that is
reported. -/
theorem evaluateItems_settles_keys {items : List Draft}
    (h : ∀ d ∈ items, ∀ location v, d.evaluateEntrywise? context = some v →
      Settles (d.evaluate context location) v (¬d.RepeatsKey context))
    (location : String) (i : Nat) {vs : List Value}
    (hvs : evaluateItemsEntrywise? context items = some vs) :
    Settles (evaluateItems context location i items) vs (∀ d ∈ items, ¬d.RepeatsKey context) := by
  induction items generalizing i vs with
  | nil =>
    obtain rfl := Option.some.inj hvs
    exact .inl ⟨by simp, rfl⟩
  | cons d rest ih =>
    obtain ⟨v, ws, hv, hws, rfl⟩ := evaluateItemsEntrywise?_cons.mp hvs
    have hrest := ih (fun d hd => h d (List.mem_cons_of_mem _ hd)) (i + 1) hws
    rw [evaluateItems]
    refine (h d List.mem_cons_self _ v hv).bind (fun hall => hall d List.mem_cons_self) fun hd => ?_
    refine hrest.bind (fun hall d hmem => hall d (List.mem_cons_of_mem _ hmem)) fun hall => ?_
    exact .inl ⟨List.forall_mem_cons.mpr ⟨hd, hall⟩, rfl⟩

/-- The entries behind those that have been seen either all have fresh keys, and their values are
appended, or the first key that is there already is reported. -/
theorem evaluateEntries_settles_keys {entries : List (String × Draft)}
    (h : ∀ key d, (key, d) ∈ entries → ∀ location v, d.evaluateEntrywise? context = some v →
      Settles (d.evaluate context location) v (¬d.RepeatsKey context))
    (location : String) {seen : Entries Value} {vs : List (String × Value)}
    (hvs : evaluateEntriesEntrywise? context entries = some vs) :
    Settles (evaluateEntries context location seen entries) (seen ++ vs)
      (Unrepeated context seen entries) := by
  -- The invariant is on the entries that are left: what has been seen grows by one key at each
  -- step, and `unrepeated_cons_iff` moves the first entry there.
  induction entries generalizing seen vs with
  | nil =>
    obtain rfl := Option.some.inj hvs
    rw [List.append_nil]
    exact .inl ⟨⟨by simp, .nil, by simp⟩, rfl⟩
  | cons entry rest ih =>
    obtain ⟨template, d⟩ := entry
    obtain ⟨key, v, ws, hkey, hv, hws, rfl⟩ := evaluateEntriesEntrywise?_cons.mp hvs
    rw [evaluateEntries, (Template.evaluateKey_agree context "" location template).ok_left hkey]
    refine (h template d List.mem_cons_self _ v hv).bind
      (fun hall => hall.below _ List.mem_cons_self) fun hd => ?_
    by_cases hseen : seen.has key
    · rw [if_pos hseen]
      refine .inr ⟨fun hall => ?_, template, key, location, rfl⟩
      exact hall.fresh _ List.mem_cons_self key hkey ((Entries.has_iff_mem_keys _ _).mp hseen)
    · rw [if_neg hseen]
      have hnew : key ∉ seen.keys := fun hmem => hseen ((Entries.has_iff_mem_keys _ _).mpr hmem)
      have hput : seen.put key v ++ ws = seen ++ (key, v) :: ws := by
        rw [Entries.put_eq_append (Entries.get?_eq_none_iff.mpr hnew), List.append_assoc,
          List.singleton_append]
      rw [unrepeated_cons_iff hkey hnew hd, ← hput]
      exact ih (fun key d hmem => h key d (List.mem_cons_of_mem _ hmem)) hws

/-- A draft whose texts all have a value is evaluated to the value with all entries, or reports a
duplicate key if it repeats one. -/
theorem evaluate_settles_keys {d : Draft} {v : Value}
    (h : d.evaluateEntrywise? context = some v) (location : String) :
    Settles (d.evaluate context location) v (¬d.RepeatsKey context) := by
  induction d generalizing location v with
  | null =>
    obtain rfl := Option.some.inj h
    exact .inl ⟨by rintro ⟨⟩, rfl⟩
  | bool b =>
    obtain rfl := Option.some.inj h
    exact .inl ⟨by rintro ⟨⟩, rfl⟩
  | number n =>
    obtain rfl := Option.some.inj h
    exact .inl ⟨by rintro ⟨⟩, rfl⟩
  | text template =>
    rw [evaluateEntrywise?] at h
    exact .inl ⟨by rintro ⟨⟩, (Template.evaluateText_agree context "" location template).ok_left
      (Except.toOption_eq_some.mp h)⟩
  | list items ih =>
    rw [evaluateEntrywise?] at h
    obtain ⟨vs, hvs, rfl⟩ := Option.map_eq_some_iff.mp h
    rw [evaluate, not_repeatsKey_list]
    exact (evaluateItems_settles_keys (fun d hd location v hv => ih d hd hv location) location 0
      hvs).bind id fun hall => .inl ⟨hall, rfl⟩
  | map entries ih =>
    rw [evaluateEntrywise?] at h
    obtain ⟨vs, hvs, rfl⟩ := Option.map_eq_some_iff.mp h
    rw [evaluate, ← unrepeated_nil_iff]
    exact (evaluateEntries_settles_keys (fun key d hmem location v hv => ih key d hmem hv location)
      location hvs).bind id fun hall => .inl ⟨hall, rfl⟩

/-- A draft that repeats a key has no value. -/
theorem evaluate_ne_ok_of_repeatsKey {d : Draft} (h : d.RepeatsKey context) (location : String)
    (v : Value) : d.evaluate context location ≠ .ok v := by
  intro hv
  rcases evaluate_settles_keys (evaluateEntrywise?_of_evaluate hv) location with hok | hreports
  · exact hok.1 h
  · obtain ⟨-, template, key, location, hreports⟩ := hreports
    rw [hv] at hreports
    cases hreports

end Draft

namespace Config

/-! ## Keys of objects -/

/-- The text of a key that is written down: a bare name or a quoted text. -/
def Term.keyText? : Term → Option String
  | .variable name => some name
  | .text s => some s
  | _ => none

/-- Two keys that are spelled alike: the same text, bare or quoted, or the same expression. -/
def Term.SpelledAlike (key other : Term) : Prop :=
  key.keyText? = other.keyText? ∧ (key.keyText? = none → key.render = other.render)

/-- Written keys are escaped, so that they evaluate to their own text. -/
theorem draftKey_of_keyText? {key : Term} {s : String} (h : key.keyText? = some s) :
    draftKey key = Template.plain s := by
  cases key <;> cases h <;> rfl

/-- All other keys are interpolated as they are written. -/
theorem draftKey_of_keyText?_none {key : Term} (h : key.keyText? = none) :
    draftKey key = "$\x7b" ++ key.render ++ "\x7d" := by
  rw [draftKey]
  · rintro name rfl
    cases h
  · rintro s rfl
    cases h

/-- Escaped text does not start with an interpolation. -/
theorem plain_ne_interpolation (s t : String) : Template.plain s ≠ "$\x7b" ++ t := by
  intro h
  have hchars := congrArg String.toList h
  rw [Template.plain, String.toList_ofList, Template.escapeMarkers_eq_written,
    String.toList_append] at hchars
  revert hchars
  -- A dollar sign that is left as it is has no brace behind it, as writing doubles the sign in
  -- front of one.
  fun_cases Template.written false s.toList with
  | case1 rest | case2 rest => simp
  | case3 c rest hdollar _ =>
    intro hchars
    obtain ⟨rfl, hrest⟩ : c = '$' ∧ Template.written false rest = '\x7b' :: t.toList := by
      simpa [Template.writtenChar] using hchars
    have hbrace : rest.head? ≠ some '\x7b' := by
      intro hhead
      obtain ⟨tail, rfl⟩ := List.head?_eq_some_iff.mp hhead
      exact hdollar tail rfl rfl
    have hempty : ([] : List Char).head? ≠ some '\x7b' := by
      simp
    have hhead := Template.written_head hbrace hempty false
    rw [List.append_nil, hrest] at hhead
    exact hhead rfl
  | case4 => simp

/-- Keys have the same template exactly if they are spelled alike. -/
theorem draftKey_eq_iff {key other : Term} :
    draftKey key = draftKey other ↔ key.SpelledAlike other := by
  unfold Term.SpelledAlike
  -- A written key and an interpolated one never have the same template. Among their own kind,
  -- escaping is injective, and an interpolation is as long as the key within it.
  cases hkey : key.keyText? with
  | some s =>
    rw [draftKey_of_keyText? hkey]
    cases hother : other.keyText? with
    | some t =>
      rw [draftKey_of_keyText? hother, Template.plain_injective.eq_iff]
      simp
    | none =>
      rw [draftKey_of_keyText?_none hother, String.append_assoc]
      simp [plain_ne_interpolation]
  | none =>
    rw [draftKey_of_keyText?_none hkey]
    cases hother : other.keyText? with
    | some t =>
      rw [draftKey_of_keyText? hother, String.append_assoc, eq_comm]
      simp [plain_ne_interpolation]
    | none =>
      rw [draftKey_of_keyText?_none hother]
      simp [← String.toList_inj]

/-! ## Drafts of objects -/

mutual
/-- The draft of a term with every entry of its objects kept. -/
def Term.draftEntrywise : Term → Draft
  | .array items => .list (itemDraftsEntrywise items)
  | .object entries => .map (entryDraftsEntrywise entries)
  | t => t.toDraft

/-- The drafts of terms in order. -/
def itemDraftsEntrywise : List Term → List Draft
  | [] => []
  | t :: rest => t.draftEntrywise :: itemDraftsEntrywise rest

/-- The drafts of the entries of an object, one for each. -/
def entryDraftsEntrywise : List (Term × Term) → List (String × Draft)
  | [] => []
  | (key, t) :: rest => (draftKey key, t.draftEntrywise) :: entryDraftsEntrywise rest
end

/-- No two keys of an object are spelled alike, in the term and in the items and values below it. -/
inductive Term.Separate : Term → Prop
  | array {items : List Term} (h : ∀ t ∈ items, Separate t) : Separate (.array items)
  | object {entries : List (Term × Term)}
      (hkeys : entries.Pairwise fun entry other => ¬entry.1.SpelledAlike other.1)
      (h : ∀ entry ∈ entries, Separate entry.2) : Separate (.object entries)
  | other {t : Term} (harray : ∀ items, t ≠ .array items)
      (hobject : ∀ entries, t ≠ .object entries) : Separate t

/-- The keys of the drafts depend on the keys of the object alone. -/
theorem keys_entryDrafts (entries : List (Term × Term)) :
    Entries.keys (entryDrafts entries) = entries.map fun entry => draftKey entry.1 := by
  induction entries with
  | nil => rfl
  | cons entry rest ih => exact congrArg (draftKey entry.1 :: ·) ih

/-- With every entry kept, the keys are the same as those that writing goes through. -/
theorem keys_entryDraftsEntrywise (entries : List (Term × Term)) :
    Entries.keys (entryDraftsEntrywise entries) = entries.map fun entry => draftKey entry.1 := by
  induction entries with
  | nil => rfl
  | cons entry rest ih => exact congrArg (draftKey entry.1 :: ·) ih

/-- The keys have different templates exactly if no two of them are spelled alike. -/
theorem nodup_draftKeys_iff (entries : List (Term × Term)) :
    (entries.map fun entry => draftKey entry.1).Nodup ↔
      entries.Pairwise fun entry other => ¬entry.1.SpelledAlike other.1 := by
  simp only [List.Nodup, List.pairwise_map, ne_eq, draftKey_eq_iff]

mutual
/-- A draft has every entry exactly if no two keys of an object are spelled alike. -/
theorem Term.toDraft_eq_entrywise_iff (t : Term) : t.toDraft = t.draftEntrywise ↔ t.Separate := by
  match t with
  | .array items =>
    rw [Term.toDraft, Term.draftEntrywise, Draft.list.injEq, itemDrafts_eq_entrywise_iff items]
    constructor
    · exact .array
    · intro h
      cases h with
      | array h => exact h
      | other harray _ => exact absurd rfl (harray items)
  -- Writing pairs into a map one by one keeps them all exactly if their keys are different.
  | .object entries =>
    have hkeys : Entries.keys (entryDraftsEntrywise entries) =
        Entries.keys (entryDrafts entries) := by
      rw [keys_entryDraftsEntrywise, keys_entryDrafts]
    rw [Term.toDraft, Term.draftEntrywise, Draft.map.injEq, Entries.ofPairs_eq_iff hkeys,
      keys_entryDrafts, nodup_draftKeys_iff, entryDrafts_eq_entrywise_iff entries]
    constructor
    · rintro ⟨hapart, h⟩
      exact .object hapart h
    · intro h
      cases h with
      | object hapart h => exact ⟨hapart, h⟩
      | other _ hobject => exact absurd rfl (hobject entries)
  | .null | .bool _ | .number _ | .text _ | .template _ | .heredoc .. | .parens _ | .variable _
  | .conditional .. | .unary .. | .chain .. | .call .. | .traversal .. | .forList ..
  | .forObject .. =>
    exact iff_of_true rfl (.other nofun nofun)

/-- Items are kept whatever they are, so only what is within them matters. -/
theorem itemDrafts_eq_entrywise_iff (items : List Term) :
    itemDrafts items = itemDraftsEntrywise items ↔ ∀ t ∈ items, t.Separate := by
  match items with
  | [] => simp [itemDrafts, itemDraftsEntrywise]
  | t :: rest =>
    rw [itemDrafts, itemDraftsEntrywise, List.cons.injEq, t.toDraft_eq_entrywise_iff,
      itemDrafts_eq_entrywise_iff rest, List.forall_mem_cons]

/-- The values of entries are kept as far as their own objects are. Whether the entries of this
object are kept is decided by the keys, where the map is written. -/
theorem entryDrafts_eq_entrywise_iff (entries : List (Term × Term)) :
    entryDrafts entries = entryDraftsEntrywise entries ↔
      ∀ entry ∈ entries, entry.2.Separate := by
  match entries with
  | [] => simp [entryDrafts, entryDraftsEntrywise]
  | (key, t) :: rest =>
    rw [entryDrafts, entryDraftsEntrywise, List.cons.injEq, Prod.mk.injEq,
      t.toDraft_eq_entrywise_iff, entryDrafts_eq_entrywise_iff rest, List.forall_mem_cons]
    simp
end

/-! ## Both together -/

/-- A draft has every entry of its term exactly if no two keys of an object are spelled alike. In
that case two keys of a map that evaluate to the same text are never merged: the draft has no value,
and unless something else in it has none on its own, a duplicate key is reported. -/
theorem Term.toDraft_repeatsKey (t : Term) :
    (t.toDraft = t.draftEntrywise ↔ t.Separate) ∧
    (t.Separate → ∀ context location, t.draftEntrywise.RepeatsKey context →
      (∀ v, t.toDraft.evaluate context location ≠ .ok v) ∧
      ∀ v, t.draftEntrywise.evaluateEntrywise? context = some v →
        Draft.ReportsDuplicate (t.toDraft.evaluate context location)) := by
  refine ⟨t.toDraft_eq_entrywise_iff, fun hseparate context location hrepeats => ?_⟩
  rw [t.toDraft_eq_entrywise_iff.mpr hseparate]
  refine ⟨Draft.evaluate_ne_ok_of_repeatsKey hrepeats location, fun v hv => ?_⟩
  rcases Draft.evaluate_settles_keys hv location with hok | hreports
  · exact absurd hrepeats hok.1
  · exact hreports.2

/-- A bare key and a computed key, which may be the same. -/
def computedKey : Term :=
  .array [.object [(.variable "a", .null),
    (.parens (.traversal (.variable "var") [.attribute "k"]), .bool true)]]

/-- The two keys are spelled differently, so both get into the draft, and the variable makes them
the same: the duplicate is reported. -/
theorem computedKey_reports :
    Draft.ReportsDuplicate (computedKey.toDraft.evaluate ⟨[("k", .text "a")], []⟩ "tags") := by
  have hseparate : computedKey.Separate := by
    rw [← Term.toDraft_eq_entrywise_iff]
    rfl
  have hsame : Draft.SameKey ⟨[("k", .text "a")], []⟩ (Template.plain "a") "$\x7b(var.k)\x7d" :=
    ⟨"a", Template.evaluateKey_plain .., by cbv⟩
  have hrepeats : computedKey.draftEntrywise.RepeatsKey ⟨[("k", .text "a")], []⟩ :=
    .item List.mem_cons_self (.here (.refl _) hsame)
  have hdraft : computedKey.draftEntrywise =
      .list [.map [(Template.plain "a", .null), ("$\x7b(var.k)\x7d", .bool true)]] := by
    rfl
  have hall : computedKey.draftEntrywise.evaluateEntrywise? ⟨[("k", .text "a")], []⟩ =
      some (.list [.map [("a", .null), ("a", .bool true)]]) := by
    rw [hdraft]
    cbv
  exact (computedKey.toDraft_repeatsKey.2 hseparate _ _ hrepeats).2 _ hall

/-- A bare and a quoted key are merged: of the two entries the later value is left, and nothing is
reported. -/
theorem toDraft_merges_keys :
    let tags := Term.object
      [(.variable "a", .number (.integer 1)), (.text "a", .number (.integer 2))]
    tags.draftEntrywise.RepeatsKey ⟨[], []⟩ ∧
      tags.toDraft.evaluate ⟨[], []⟩ "tags" = .ok (.map [("a", .number (.integer 2))]) := by
  intro tags
  have hvalue : Value.Distinct (.map [("a", .number (.integer 2))]) :=
    .map (by simp [Entries.keys]) (by simp [Value.Distinct.number])
  have hdraft : tags.toDraft = Draft.ofValue (.map [("a", .number (.integer 2))]) := by
    rfl
  refine ⟨.here (.refl _) ⟨"a", ?_, ?_⟩, ?_⟩
  · exact Template.evaluateKey_plain ..
  · exact Template.evaluateKey_plain ..
  · rw [hdraft]
    exact Draft.evaluate_ofValue hvalue _ _

end Config

end Deployment
