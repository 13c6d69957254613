import Deployment.Proofs.Instance.Keys
import Deployment.Proofs.Plan.Address
import Deployment.Proofs.Syntax.Induction

/-! # Keyed resources have an instance for every key

A `for_each` iterates over a map or over a list that is taken as a set. A map gives its entries. A
set gives every text that one of its elements is written as, once and with the first such element,
so that the number `1` and the text `1` are one key (`firstByText`).

The keys of the instances are these keys, in order, and nothing but the limit and the substitution
of the iteration symbols decides whether the expansion succeeds (`Instance.expandForEach_exact`).
-/

namespace Deployment

/-! ## Sets -/

/-- The texts of elements, each where it occurs first, with the first element that has it. -/
def firstByText (items : List Value) : Entries Value :=
  (items.filterMap Value.text?).eraseDups.filterMap fun key =>
    (items.find? (·.text? == some key)).map fun item => (key, item)

section Sets

variable {items : List Value} {item : Value} {key : String}

/-- For every text that an element is written as there is a first element. -/
theorem find?_text (h : key ∈ items.filterMap Value.text?) :
    ∃ first, items.find? (·.text? == some key) = some first := by
  obtain ⟨item, hitem, htext⟩ := List.mem_filterMap.mp h
  rw [← Option.isSome_iff_exists, List.find?_isSome]
  exact ⟨item, hitem, beq_iff_eq.mpr htext⟩

/-- The keys of a set are the texts of its elements, each one once and where it comes first. -/
theorem keys_firstByText (items : List Value) :
    (firstByText items).keys = (items.filterMap Value.text?).eraseDups := by
  rw [firstByText, Entries.keys, List.map_filterMap]
  refine (List.filterMap_congr fun key hkey => ?_).trans List.filterMap_some
  obtain ⟨first, hfirst⟩ := find?_text (List.mem_eraseDups.mp hkey)
  rw [hfirst]
  rfl

/-- One more text at the end is a repetition or comes last. -/
theorem eraseDups_concat (texts : List String) (key : String) :
    (texts ++ [key]).eraseDups =
      if key ∈ texts then texts.eraseDups else texts.eraseDups ++ [key] := by
  rw [List.eraseDups_append]
  by_cases h : key ∈ texts
  · rw [if_pos h, List.removeAll, List.filter_cons_of_neg (by simpa using h)]
    exact List.append_nil _
  · rw [if_neg h, List.removeAll, List.filter_cons_of_pos (by simpa using h)]
    rfl

/-- Another element adds its text, unless there is an element with that text before it. -/
theorem firstByText_concat (htext : item.text? = some key) :
    firstByText (items ++ [item]) =
      if (firstByText items).has key then firstByText items
      else (firstByText items).put key item := by
  have hhas : (firstByText items).has key ↔ key ∈ items.filterMap Value.text? := by
    rw [Entries.has_iff_mem_keys, keys_firstByText, List.mem_eraseDups]
  have htexts : (items ++ [item]).filterMap Value.text? = items.filterMap Value.text? ++ [key] := by
    simp [htext]
  have hbefore : ((items.filterMap Value.text?).eraseDups.filterMap fun key =>
      ((items ++ [item]).find? (·.text? == some key)).map fun item => (key, item)) =
        firstByText items := by
    refine List.filterMap_congr fun key hkey => ?_
    obtain ⟨first, hfirst⟩ := find?_text (List.mem_eraseDups.mp hkey)
    rw [List.find?_append, hfirst, Option.some_or]
  rw [firstByText, htexts, eraseDups_concat]
  -- An old text changes nothing, since the first element that has it stays the first.
  by_cases hold : key ∈ items.filterMap Value.text?
  · rw [if_pos hold, if_pos (hhas.mpr hold), hbefore]
  · have hnew : (firstByText items).get? key = none := by
      rw [← Entries.has_eq_false_iff, ← Bool.not_eq_true, hhas]
      exact hold
    have hnone : items.find? (·.text? == some key) = none := by
      rw [List.find?_eq_none]
      intro first hfirst heq
      exact hold (List.mem_filterMap.mpr ⟨first, hfirst, beq_iff_eq.mp heq⟩)
    have hlast : (items ++ [item]).find? (·.text? == some key) = some item := by
      rw [List.find?_append, hnone, Option.none_or, List.find?_singleton, if_pos]
      exact beq_iff_eq.mpr htext
    rw [if_neg hold, if_neg (mt hhas.mp hold), Entries.put_eq_append hnew, List.filterMap_append,
      hbefore]
    simp only [List.filterMap_cons, hlast, Option.map_some, List.filterMap_nil]

end Sets

namespace Instance

/-- Elements are taken from the left, so a set can be taken in two parts. -/
theorem elements_append (seen : Entries Value) (items more : List Value) :
    elements seen (items ++ more) = elements seen items >>= fun seen => elements seen more := by
  induction items generalizing seen with
  | nil => rfl
  | cons v rest ih =>
    rw [List.cons_append, elements, elements]
    cases elementKey v with
    | error reason => rfl
    | ok key => exact ih _

/-- The elements of a set are taken one after the other, and the first one of each text is kept. -/
theorem elements_eq_firstByText {items : List Value} (h : ∀ item ∈ items, item.text?.isSome) :
    elements [] items = .ok (firstByText items) := by
  -- Whether an element is kept depends on the ones before it, so the last one is taken off.
  induction items using List.reverseRecOn with
  | nil => rfl
  | append_singleton items item ih =>
    rw [List.forall_mem_append, List.forall_mem_singleton] at h
    obtain ⟨key, hkey⟩ := Option.isSome_iff_exists.mp h.2
    have hstep : elementKey item = .ok key := by
      rw [elementKey, hkey]
    rw [elements_append, ih h.1, firstByText_concat hkey]
    show (elementKey item >>= fun key => _) = _
    rw [hstep]
    rfl

/-! ## Collections -/

/-- What a collection is iterated over: a map over its entries, and a set of texts, numbers and
truth values over the texts of its elements. -/
inductive Iterates : Value → Entries Value → Prop
  | map (entries : Entries Value) : Iterates (.map entries) entries
  | set (items : List Value) (h : ∀ item ∈ items, item.kind ∈ [Kind.text, .number, .bool]) :
      Iterates (.list items) (firstByText items)

/-- What a collection is iterated over is what the expansion makes of it. -/
theorem Iterates.iterated_eq {v : Value} {entries : Entries Value} (h : Iterates v entries) :
    iterated v = .ok entries := by
  cases h with
  | map => rfl
  | set items h =>
    refine elements_eq_firstByText fun item hitem => ?_
    have hkind := h item hitem
    cases item <;> simp [Value.kind] at hkind <;> rfl

/-! ## Failures of the substitution -/

/-- A computation that never asks for too many instances. -/
def Unlimited {α : Type} (r : Except Failure α) : Prop :=
  ∀ resource requested limit, r ≠ .error (.limitExceeded resource requested limit)

namespace Unlimited

variable {α β : Type}

theorem ok (a : α) : Unlimited (.ok a) := nofun

theorem invalid (expr : String) (reason : Reason) (location : String) :
    Unlimited (.error (.invalid expr reason location) : Except Failure α) := nofun

/-- A sequence never asks for too many instances if its steps do not. -/
theorem bind {r : Except Failure α} {f : α → Except Failure β} (h : Unlimited r)
    (hf : ∀ a, Unlimited (f a)) : Unlimited (r >>= f) := by
  intro resource requested limit herror
  rcases Except.bind_eq_error.mp herror with hr | ⟨a, -, ha⟩
  · exact h resource requested limit hr
  · exact hf a resource requested limit ha

/-- Computations for the members of a list never ask for too many instances if none of them does. -/
theorem mapM {f : α → Except Failure β} (h : ∀ a, Unlimited (f a)) (as : List α) :
    Unlimited (as.mapM f) := by
  induction as with
  | nil => exact .ok _
  | cons a rest ih =>
    rw [List.mapM_cons]
    exact (h a).bind fun b => ih.bind fun bs => .ok _

end Unlimited

end Instance

open Instance (Unlimited)

/-- Binding a text fails for what is in the text. The same goes for items, entries and whole drafts.
-/
theorem Template.bindText_unlimited (b : Binding) (location template : String) :
    Unlimited (bindText b location template) := by
  unfold bindText
  split
  · exact .invalid _ _ _
  · split
    · exact .ok _
    · exact .ok _

namespace Draft

variable {b : Binding}

theorem bindItems_unlimited {items : List Draft}
    (h : ∀ d ∈ items, ∀ location, Unlimited (bind b location d)) (location : String) :
    Unlimited (bindItems b location items) := by
  induction items with
  | nil => exact .ok _
  | cons d rest ih =>
    rw [bindItems]
    obtain ⟨hd, hrest⟩ := List.forall_mem_cons.mp h
    exact (hd _).bind fun r => (ih hrest).bind fun rs => .ok _

theorem bindEntries_unlimited {entries : List (String × Draft)}
    (h : ∀ key d, (key, d) ∈ entries → ∀ location, Unlimited (bind b location d))
    (location : String) : Unlimited (bindEntries b location entries) := by
  induction entries with
  | nil => exact .ok _
  | cons entry rest ih =>
    obtain ⟨key, d⟩ := entry
    rw [bindEntries]
    exact (Template.bindText_unlimited b _ _).bind fun key' =>
      (h key d List.mem_cons_self _).bind fun r =>
        (ih fun key d hd => h key d (List.mem_cons_of_mem _ hd)).bind fun rs => .ok _

theorem bind_unlimited (location : String) (d : Draft) : Unlimited (bind b location d) := by
  induction d generalizing location with
  | null => exact .ok _
  | bool v => exact .ok _
  | number n => exact .ok _
  | text template =>
    rw [bind]
    exact (Template.bindText_unlimited b _ _).bind fun bound => .ok _
  | list items ih =>
    rw [bind]
    exact (bindItems_unlimited ih _).bind fun drafts => .ok _
  | map entries ih =>
    rw [bind]
    exact (bindEntries_unlimited ih _).bind fun drafts => .ok _

theorem bindAttributes_unlimited (owner : String) (attributes : Entries Draft) :
    Unlimited (bindAttributes b owner attributes) := by
  induction attributes with
  | nil => exact .ok _
  | cons entry rest ih =>
    rw [bindAttributes]
    exact (bind_unlimited _ _).bind fun r => ih.bind fun rs => .ok _

end Draft

/-! ## Keyed instances -/

namespace Instance

/-- Making a copy never asks for too many instances, so the limit that an expansion reports is its
own. -/
theorem keyed_unlimited (template : Instance) (key : IndexKey) (b : Binding) :
    Unlimited (template.keyed key b) :=
  (Draft.bindAttributes_unlimited _ _).bind fun _ => .ok _

/-- The instance for an entry: without the `for_each`, and with the key and the value of the entry
in the place of `each.key` and `each.value`. -/
def forEntry (i : Instance) (entry : String × Value) : Except Failure Instance :=
  { i with attributes := i.attributes.remove forEachAttribute }.keyed (.text entry.1)
    (.each entry.1 entry.2)

theorem forEntry_unlimited (i : Instance) (entry : String × Value) : Unlimited (i.forEntry entry) :=
  keyed_unlimited _ _ _

/-- Identifiers of the same name are told apart by their keys. -/
theorem identifier_injective (name : String) : Function.Injective (identifier name) := by
  intro key key' h
  have hchars := congrArg String.toList h
  rw [identifier_toList, identifier_toList] at hchars
  exact keyText_injective (List.append_cancel_left hchars)

/-- Instances of one family have different identifiers. -/
theorem Family.logicalIds_nodup {labels : String × String} {instances : List Instance}
    (h : Family labels instances) : (instances.map logicalId).Nodup := by
  have hids : instances.map logicalId = (instances.map key).map (identifier labels.2) := by
    rw [List.map_map]
    refine List.map_congr_left fun i hi => ?_
    rw [Function.comp_apply, logicalId, ← h.labels i hi]
    rfl
  rw [hids]
  exact h.nodup.map (identifier_injective _)

/-! ## The expansion -/

variable {context : Context} {limit : Nat} {i : Instance} {forEach : Draft} {v : Value}
  {entries : Entries Value}

/-- The expansion of an instance whose `for_each` is iterated over. -/
theorem expandForEach_eq (hforEach : i.attributes.get? forEachAttribute = some forEach)
    (hv : forEach.evaluate context (Draft.entryLocation i.address forEachAttribute) = .ok v)
    (h : Iterates v entries) :
    expandForEach context limit i =
      if limit < entries.length then .error (.limitExceeded i.address entries.length limit)
      else entries.mapM i.forEntry := by
  rw [expandForEach, hforEach]
  dsimp only
  rw [hv]
  simp only [bind, Except.bind, h.iterated_eq, ofEntries_eq_mapM]
  rfl

/-- An instance is expanded into one instance for every entry that its `for_each` iterates over, in
order. Their keys and identifiers are different. It is refused if the keys are more than the limit,
with the number of keys. -/
theorem expandForEach_exact (hcontext : context.Distinct) (limit : Nat)
    (hforEach : i.attributes.get? forEachAttribute = some forEach)
    (hv : forEach.evaluate context (Draft.entryLocation i.address forEachAttribute) = .ok v)
    (h : Iterates v entries) :
    (∀ instances, expandForEach context limit i = .ok instances ↔
      entries.length ≤ limit ∧
        entries.Forall₂ (fun entry j => i.forEntry entry = .ok j) instances) ∧
    entries.keys.Nodup ∧
    (∀ instances, expandForEach context limit i = .ok instances →
      (instances.map key).Nodup ∧ (instances.map logicalId).Nodup) ∧
    (∀ resource requested bound,
      expandForEach context limit i = .error (.limitExceeded resource requested bound) ↔
        limit < entries.length ∧ resource = i.address ∧ requested = entries.length ∧
          bound = limit) := by
  -- The expansion compares the number of entries with the limit and makes a copy for each. The rest
  -- says so for both outcomes.
  rw [expandForEach_eq hforEach hv h]
  refine ⟨fun instances => ?success, ?keys, ?distinct, fun resource requested bound => ?refused⟩
  case success =>
    rw [← Except.mapM_eq_ok]
    split
    · exact iff_of_false nofun (by omega)
    · exact (and_iff_right (by omega)).symm
  case keys =>
    exact iterated_nodup (Draft.evaluate_distinct hcontext _ _ v hv) entries h.iterated_eq
  case distinct =>
    rw [← expandForEach_eq hforEach hv h]
    intro instances hinstances
    have hfamily := expandForEach_family hcontext limit i instances hinstances
    exact ⟨hfamily.nodup, hfamily.logicalIds_nodup⟩
  case refused =>
    split
    · simp only [Except.error.injEq, Failure.limitExceeded.injEq]
      constructor
      · rintro ⟨rfl, rfl, rfl⟩
        exact ⟨‹_›, rfl, rfl, rfl⟩
      · rintro ⟨-, rfl, rfl, rfl⟩
        exact ⟨rfl, rfl, rfl⟩
    · exact iff_of_false (Unlimited.mapM i.forEntry_unlimited entries _ _ _) (by omega)

/-- Elements of which two are written alike, and one has quotes in it. -/
def mixedItems : List Value :=
  [.number (.integer 1), .text "1", .bool true, .text "a\"]\\"]

/-- An instance for all of them. -/
def mixed : Instance :=
  ⟨"aws_instance", "web", none, none,
    [("for_each", .ofValue (.list mixedItems)), ("size", .text "$\x7beach.value\x7d")]⟩

/-- The number and the text that are written alike are one key, and the first of them is its value.
-/
theorem mixed_expandForEach_exact :
    firstByText mixedItems =
      [("1", .number (.integer 1)), ("true", .bool true), ("a\"]\\", .text "a\"]\\")] ∧
    expandForEach ⟨[], []⟩ 3 mixed = .ok
      [⟨"aws_instance", "web", none, some (.text "1"), [("size", .text "$\x7b1\x7d")]⟩,
        ⟨"aws_instance", "web", none, some (.text "true"), [("size", .text "$\x7btrue\x7d")]⟩,
        ⟨"aws_instance", "web", none, some (.text "a\"]\\"),
          [("size", .text "$\x7b\"a\\\"]\\\\\"\x7d")]⟩] ∧
    expandForEach ⟨[], []⟩ 2 mixed = .error (.limitExceeded "aws_instance.web" 3 2) := by
  have hcontext : Context.Distinct ⟨[], []⟩ := ⟨nofun, nofun⟩
  have hv : Draft.evaluate ⟨[], []⟩ (Draft.entryLocation mixed.address forEachAttribute)
      (.ofValue (.list mixedItems)) = .ok (.list mixedItems) := by
    cbv
  have hset : Iterates (.list mixedItems) (firstByText mixedItems) :=
    .set _ (by simp [mixedItems, Value.kind])
  have hlength : (firstByText mixedItems).length = 3 := by decide
  refine ⟨rfl, ?_, ?_⟩
  · refine ((expandForEach_exact hcontext 3 rfl hv hset).1 _).mpr ⟨hlength.le, ?_⟩
    exact .cons (by cbv) (.cons (by cbv) (.cons (by cbv) .nil))
  · refine ((expandForEach_exact hcontext 2 rfl hv hset).2.2.2 _ _ _).mpr ?_
    exact ⟨by rw [hlength]; decide, by cbv, hlength.symm, rfl⟩

end Instance

end Deployment
