import Deployment.Draft.Binding
import Deployment.Proofs.Evaluation.Distinct

/-! # What happens to the entries of maps

Binding rewrites the keys of a map, and two keys may become the same text. The bound map is built by
writing its entries in order, so of two such entries the later value is kept under the earlier one's
position, and nothing is left to report. `Draft.bindEntrywise` is the draft in which every entry is
kept. Binding gives that draft exactly if no two keys of a map become the same text.

Evaluating does not lose entries: a key that is there already is a failure. The value with every
entry kept is `Draft.evaluateEntrywise?`, if every text in the draft has a value on its own. The
draft has that value exactly if no map in it holds a key twice, and else a duplicate key is
reported.
-/

namespace Deployment

/-- A text with the bound references replaced. Text that is no template stays as it is. -/
def Template.bound (b : Binding) (text : String) : String :=
  (bindText b "" text).toOption.getD text

namespace Draft

mutual
/-- The draft with the bound references replaced, every entry of every map kept. -/
def bindEntrywise (b : Binding) : Draft → Draft
  | .null => .null
  | .bool v => .bool v
  | .number n => .number n
  | .text template => .text (Template.bound b template)
  | .list items => .list (bindItemsEntrywise b items)
  | .map entries => .map (bindEntriesEntrywise b entries)

/-- The bound items of a list. -/
def bindItemsEntrywise (b : Binding) : List Draft → List Draft
  | [] => []
  | d :: rest => bindEntrywise b d :: bindItemsEntrywise b rest

/-- The bound entries of a map, one for each. -/
def bindEntriesEntrywise (b : Binding) : List (String × Draft) → List (String × Draft)
  | [] => []
  | (key, d) :: rest => (Template.bound b key, bindEntrywise b d) :: bindEntriesEntrywise b rest
end

mutual
/-- The value of a draft with every entry of every map kept. -/
def evaluateEntrywise? (context : Context) : Draft → Option Value
  | .null => some .null
  | .bool b => some (.bool b)
  | .number n => some (.number n)
  | .text template => (Template.evaluateText context "" template).toOption
  | .list items => (evaluateItemsEntrywise? context items).map .list
  | .map entries => (evaluateEntriesEntrywise? context entries).map .map

/-- The values of the items of a list. -/
def evaluateItemsEntrywise? (context : Context) : List Draft → Option (List Value)
  | [] => some []
  | d :: rest => do
    let v ← evaluateEntrywise? context d
    let vs ← evaluateItemsEntrywise? context rest
    some (v :: vs)

/-- The keys and values of the entries of a map, one for each. -/
def evaluateEntriesEntrywise? (context : Context) :
    List (String × Draft) → Option (List (String × Value))
  | [] => some []
  | (template, d) :: rest => do
    let key ← (Template.evaluateKey context "" template).toOption
    let v ← evaluateEntrywise? context d
    let vs ← evaluateEntriesEntrywise? context rest
    some ((key, v) :: vs)
end

/-- No two keys of a map become the same text, in all maps of the draft. -/
inductive Separate (b : Binding) : Draft → Prop
  | null : Separate b .null
  | bool (v : Bool) : Separate b (.bool v)
  | number (n : Number) : Separate b (.number n)
  | text (template : String) : Separate b (.text template)
  | list {items : List Draft} (h : ∀ d ∈ items, Separate b d) : Separate b (.list items)
  | map {entries : List (String × Draft)}
      (nodup : ((Entries.keys entries).map (Template.bound b)).Nodup)
      (h : ∀ key d, (key, d) ∈ entries → Separate b d) : Separate b (.map entries)

/-- A computation that fails because of a key that is there twice. -/
def ReportsDuplicate {α : Type} (r : Except Failure α) : Prop :=
  ∃ template key location, r = .error (.invalid template (.duplicateKey key) location)

/-! ## Binding -/

section Binding

variable {b : Binding} {location : String} {items : List Draft} {entries : List (String × Draft)}

/-- Where binding succeeds, the result does not depend on the place. -/
theorem bound_of_bindText {text written : String}
    (h : Template.bindText b location text = .ok written) : Template.bound b text = written := by
  unfold Template.bound Template.bindText
  unfold Template.bindText at h
  cases hparse : Template.parse text false with
  | error e =>
    rw [hparse] at h
    cases h
  | ok parts =>
    rw [hparse] at h
    dsimp only at h ⊢
    rw [h]
    rfl

/-- A list is separate if its items are. -/
theorem separate_list : (list items).Separate b ↔ ∀ d ∈ items, d.Separate b := by
  constructor
  · intro h
    cases h with
    | list h => exact h
  · exact .list

/-- A map is separate if its values are and its keys become different texts. -/
theorem separate_map : (map entries).Separate b ↔
    ((Entries.keys entries).map (Template.bound b)).Nodup ∧
      ∀ key d, (key, d) ∈ entries → d.Separate b := by
  constructor
  · intro h
    cases h with
    | map nodup h => exact ⟨nodup, h⟩
  · rintro ⟨nodup, h⟩
    exact .map nodup h

/-- Entry by entry, the keys are the bound keys in order. -/
theorem keys_bindEntriesEntrywise (b : Binding) (entries : List (String × Draft)) :
    Entries.keys (bindEntriesEntrywise b entries) =
      (Entries.keys entries).map (Template.bound b) := by
  induction entries with
  | nil => rfl
  | cons entry rest ih => exact congrArg (Template.bound b entry.1 :: ·) ih

/-- Bound items are those of the entrywise draft exactly if every item is separate. -/
theorem bindItems_eq_entrywise_iff
    (h : ∀ d ∈ items, ∀ r, d.bind b location = .ok r → (r = d.bindEntrywise b ↔ d.Separate b))
    {bound : List Draft} (hbind : bindItems b location items = .ok bound) :
    bound = bindItemsEntrywise b items ↔ ∀ d ∈ items, d.Separate b := by
  induction items generalizing bound with
  | nil =>
    obtain rfl := Except.ok.inj hbind
    simp [bindItemsEntrywise]
  | cons d rest ih =>
    rw [bindItems] at hbind
    obtain ⟨r, hr, hbind⟩ := Except.bind_eq_ok.mp hbind
    obtain ⟨rs, hrs, hbind⟩ := Except.bind_eq_ok.mp hbind
    obtain rfl := Except.ok.inj hbind
    rw [bindItemsEntrywise, List.cons.injEq, h d List.mem_cons_self r hr,
      ih (fun d hd => h d (List.mem_cons_of_mem _ hd)) hrs, List.forall_mem_cons]

/-- The list of bound entries has the bound keys, repeated ones included, and its values are those
of the entrywise draft exactly if every value is separate. -/
theorem bindEntries_eq_entrywise_iff
    (h : ∀ key d, (key, d) ∈ entries → ∀ location r, d.bind b location = .ok r →
      (r = d.bindEntrywise b ↔ d.Separate b))
    {bound : List (String × Draft)} (hbind : bindEntries b location entries = .ok bound) :
    Entries.keys bound = (Entries.keys entries).map (Template.bound b) ∧
      (bound = bindEntriesEntrywise b entries ↔
        ∀ key d, (key, d) ∈ entries → d.Separate b) := by
  induction entries generalizing bound with
  | nil =>
    obtain rfl := Except.ok.inj hbind
    simp [bindEntriesEntrywise, Entries.keys]
  | cons entry rest ih =>
    obtain ⟨key, d⟩ := entry
    rw [bindEntries] at hbind
    obtain ⟨key', hkey, hbind⟩ := Except.bind_eq_ok.mp hbind
    obtain ⟨r, hr, hbind⟩ := Except.bind_eq_ok.mp hbind
    obtain ⟨rs, hrs, hbind⟩ := Except.bind_eq_ok.mp hbind
    obtain rfl := Except.ok.inj hbind
    obtain ⟨hkeys, hrest⟩ := ih (fun key d hmem => h key d (List.mem_cons_of_mem _ hmem)) hrs
    have hbound : Template.bound b key = key' := bound_of_bindText hkey
    constructor
    · show key' :: Entries.keys rs = Template.bound b key :: (Entries.keys rest).map _
      rw [hbound, hkeys]
    · rw [bindEntriesEntrywise, List.cons.injEq, Prod.mk.injEq, hrest, hbound,
        h key d List.mem_cons_self _ r hr]
      simp only [true_and, List.mem_cons, Prod.mk.injEq]
      constructor
      · rintro ⟨hd, hrest⟩ key' d' (⟨rfl, rfl⟩ | hmem)
        · exact hd
        · exact hrest key' d' hmem
      · intro hall
        exact ⟨hall key d (.inl ⟨rfl, rfl⟩), fun key d hmem => hall key d (.inr hmem)⟩

/-- Writing the bound entries keeps all of them exactly if their keys are different. -/
theorem ofPairs_eq_entrywise_iff {bound : List (String × Draft)}
    (hkeys : Entries.keys bound = (Entries.keys entries).map (Template.bound b)) :
    Entries.ofPairs bound = bindEntriesEntrywise b entries ↔
      ((Entries.keys entries).map (Template.bound b)).Nodup ∧
        bound = bindEntriesEntrywise b entries := by
  rw [← hkeys]
  exact Entries.ofPairs_eq_iff ((keys_bindEntriesEntrywise b entries).trans hkeys.symm)

/-- Binding keeps every entry exactly if no two keys of a map become the same text. -/
theorem bind_eq_entrywise_iff {d r : Draft} (h : d.bind b location = .ok r) :
    r = d.bindEntrywise b ↔ d.Separate b := by
  induction d generalizing location r with
  | null =>
    obtain rfl := Except.ok.inj h
    exact iff_of_true rfl .null
  | bool v =>
    obtain rfl := Except.ok.inj h
    exact iff_of_true rfl (.bool v)
  | number n =>
    obtain rfl := Except.ok.inj h
    exact iff_of_true rfl (.number n)
  | text template =>
    rw [bind] at h
    obtain ⟨written, hwritten, h⟩ := Except.bind_eq_ok.mp h
    obtain rfl := Except.ok.inj h
    refine iff_of_true ?_ (.text template)
    rw [bindEntrywise, bound_of_bindText hwritten]
  | list items ih =>
    rw [bind] at h
    obtain ⟨bound, hbound, h⟩ := Except.bind_eq_ok.mp h
    obtain rfl := Except.ok.inj h
    rw [bindEntrywise, list.injEq, separate_list]
    exact bindItems_eq_entrywise_iff (fun d hd r hr => ih d hd hr) hbound
  -- The only case in which something can get lost.
  | map entries ih =>
    rw [bind] at h
    obtain ⟨bound, hbound, h⟩ := Except.bind_eq_ok.mp h
    obtain rfl := Except.ok.inj h
    obtain ⟨hkeys, hentries⟩ :=
      bindEntries_eq_entrywise_iff (fun key d hmem location r hr => ih key d hmem hr) hbound
    rw [bindEntrywise, map.injEq, ofPairs_eq_entrywise_iff hkeys, hentries, separate_map]

end Binding

/-! ## Evaluation -/

section Evaluation

variable {context : Context} {items : List Draft} {entries : List (String × Draft)}

/-- Items have values if the first one has one and the others have theirs. -/
theorem evaluateItemsEntrywise?_cons {d : Draft} {vs : List Value} :
    evaluateItemsEntrywise? context (d :: items) = some vs ↔
      ∃ v ws, d.evaluateEntrywise? context = some v ∧
        evaluateItemsEntrywise? context items = some ws ∧ v :: ws = vs := by
  simp [evaluateItemsEntrywise?, Option.bind_eq_some_iff]

/-- Entries have keys and values if the first one has both and the others have theirs. -/
theorem evaluateEntriesEntrywise?_cons {template : String} {d : Draft}
    {vs : List (String × Value)} :
    evaluateEntriesEntrywise? context ((template, d) :: entries) = some vs ↔
      ∃ key v ws, Template.evaluateKey context "" template = .ok key ∧
        d.evaluateEntrywise? context = some v ∧
        evaluateEntriesEntrywise? context entries = some ws ∧ (key, v) :: ws = vs := by
  simp [evaluateEntriesEntrywise?, Option.bind_eq_some_iff, Except.toOption_eq_some]

/-- The values of items are those of the items one by one. -/
theorem evaluateItems_entrywise {location : String} {i : Nat}
    (h : ∀ d ∈ items, ∀ location v, d.evaluate context location = .ok v →
      d.evaluateEntrywise? context = some v)
    {vs : List Value} (heval : evaluateItems context location i items = .ok vs) :
    evaluateItemsEntrywise? context items = some vs := by
  induction items generalizing i vs with
  | nil =>
    obtain rfl := Except.ok.inj heval
    rfl
  | cons d rest ih =>
    rw [evaluateItems] at heval
    obtain ⟨v, hv, heval⟩ := Except.bind_eq_ok.mp heval
    obtain ⟨rs, hrs, heval⟩ := Except.bind_eq_ok.mp heval
    obtain rfl := Except.ok.inj heval
    have hrest := ih (fun d hd => h d (List.mem_cons_of_mem _ hd)) hrs
    exact evaluateItemsEntrywise?_cons.mpr ⟨v, rs, h d List.mem_cons_self _ v hv, hrest, rfl⟩

/-- A map that was evaluated holds what was there before and then all its entries, since none of its
keys was refused. -/
theorem evaluateEntries_entrywise {location : String}
    (h : ∀ key d, (key, d) ∈ entries → ∀ location v, d.evaluate context location = .ok v →
      d.evaluateEntrywise? context = some v)
    {seen result : Entries Value}
    (heval : evaluateEntries context location seen entries = .ok result) :
    ∃ vs, evaluateEntriesEntrywise? context entries = some vs ∧ result = seen ++ vs := by
  induction entries generalizing seen with
  | nil =>
    obtain rfl := Except.ok.inj heval
    exact ⟨[], rfl, (List.append_nil _).symm⟩
  | cons entry rest ih =>
    obtain ⟨template, d⟩ := entry
    rw [evaluateEntries] at heval
    obtain ⟨key, hkey, heval⟩ := Except.bind_eq_ok.mp heval
    obtain ⟨v, hv, heval⟩ := Except.bind_eq_ok.mp heval
    -- A key that was seen would have ended the evaluation.
    by_cases hseen : seen.has key
    · rw [if_pos hseen] at heval
      cases heval
    · rw [if_neg hseen] at heval
      have hnew : seen.get? key = none :=
        Entries.has_eq_false_iff.mp (Bool.eq_false_iff.mpr hseen)
      obtain ⟨vs, hvs, rfl⟩ :=
        ih (fun key d hmem => h key d (List.mem_cons_of_mem _ hmem)) heval
      have hkey' := (Template.evaluateKey_agree context location "" template).ok_left hkey
      have hd := h template d List.mem_cons_self _ v hv
      refine ⟨_, evaluateEntriesEntrywise?_cons.mpr ⟨key, v, vs, hkey', hd, hvs, rfl⟩, ?_⟩
      rw [Entries.put_eq_append hnew, List.append_assoc, List.singleton_append]

/-- A value has all entries of its draft. -/
theorem evaluateEntrywise?_of_evaluate {d : Draft} {location : String} {v : Value}
    (h : d.evaluate context location = .ok v) : d.evaluateEntrywise? context = some v := by
  induction d generalizing location v with
  | null => exact congrArg some (Except.ok.inj h)
  | bool b => exact congrArg some (Except.ok.inj h)
  | number n => exact congrArg some (Except.ok.inj h)
  | text template =>
    rw [evaluate] at h
    have h' := (Template.evaluateText_agree context location "" template).ok_left h
    rw [evaluateEntrywise?, h']
    rfl
  | list items ih =>
    rw [evaluate] at h
    obtain ⟨vs, hvs, h⟩ := Except.bind_eq_ok.mp h
    obtain rfl := Except.ok.inj h
    rw [evaluateEntrywise?, evaluateItems_entrywise (fun d hd location v hv => ih d hd hv) hvs]
    rfl
  | map entries ih =>
    rw [evaluate] at h
    obtain ⟨vs, hvs, h⟩ := Except.bind_eq_ok.mp h
    obtain rfl := Except.ok.inj h
    obtain ⟨vs', hvs', rfl⟩ :=
      evaluateEntries_entrywise (fun key d hmem location v hv => ih key d hmem hv) hvs
    rw [evaluateEntrywise?, hvs']
    rfl

/-- The outcome of a computation whose result, all entries kept, is `v`: it is `v` if no key is
there twice, and a duplicate key is reported otherwise. -/
def Settles {α : Type} (r : Except Failure α) (a : α) (distinct : Prop) : Prop :=
  distinct ∧ r = .ok a ∨ ¬distinct ∧ ReportsDuplicate r

/-- Two steps settle what the second one does, if its keys can only be different when those of the
first one are. -/
theorem Settles.bind {α β : Type} {r : Except Failure α} {a : α} {p : Prop}
    (h : Settles r a p) {f : α → Except Failure β} {b : β} {q : Prop} (hpq : q → p)
    (hf : p → Settles (f a) b q) : Settles (r >>= f) b q := by
  rcases h with ⟨hp, rfl⟩ | ⟨hp, template, key, location, rfl⟩
  · exact hf hp
  · exact .inr ⟨fun hq => hp (hpq hq), template, key, location, rfl⟩

/-- Items settle a list: the first one with a repeated key ends the pass. -/
theorem evaluateItems_settles
    (h : ∀ d ∈ items, ∀ location v, d.evaluateEntrywise? context = some v →
      Settles (d.evaluate context location) v v.Distinct)
    (location : String) (i : Nat) {vs : List Value}
    (hvs : evaluateItemsEntrywise? context items = some vs) :
    Settles (evaluateItems context location i items) vs (Value.list vs).Distinct := by
  induction items generalizing i vs with
  | nil =>
    obtain rfl := Option.some.inj hvs
    exact .inl ⟨.list (by simp), rfl⟩
  | cons d rest ih =>
    obtain ⟨v, ws, hv, hws, rfl⟩ := evaluateItemsEntrywise?_cons.mp hvs
    have hrest := ih (fun d hd => h d (List.mem_cons_of_mem _ hd)) (i + 1) hws
    rw [evaluateItems]
    refine (h d List.mem_cons_self _ v hv).bind (fun hd => hd.mem List.mem_cons_self) fun hv => ?_
    refine hrest.bind (fun hd => .list fun w hw => hd.mem (List.mem_cons_of_mem _ hw)) fun hws => ?_
    exact .inl ⟨hv.cons hws, rfl⟩

/-- Entries settle a map. The pass ends at the first repeated key, in a value or among the keys
themselves. -/
theorem evaluateEntries_settles
    (h : ∀ key d, (key, d) ∈ entries → ∀ location v, d.evaluateEntrywise? context = some v →
      Settles (d.evaluate context location) v v.Distinct)
    (location : String) {seen : Entries Value} (hseen : (Value.map seen).Distinct)
    {vs : List (String × Value)} (hvs : evaluateEntriesEntrywise? context entries = some vs) :
    Settles (evaluateEntries context location seen entries) (seen ++ vs)
      (Value.map (seen ++ vs)).Distinct := by
  induction entries generalizing seen vs with
  | nil =>
    obtain rfl := Option.some.inj hvs
    rw [List.append_nil]
    exact .inl ⟨hseen, rfl⟩
  | cons entry rest ih =>
    obtain ⟨template, d⟩ := entry
    obtain ⟨key, v, ws, hkey, hv, hws, rfl⟩ := evaluateEntriesEntrywise?_cons.mp hvs
    rw [evaluateEntries, (Template.evaluateKey_agree context "" location template).ok_left hkey]
    refine (h template d List.mem_cons_self _ v hv).bind ?_ fun hdistinct => ?_
    · exact fun hall => hall.entry (List.mem_append_right _ List.mem_cons_self)
    by_cases hnew : seen.has key
    · -- The pass stops here, so it is this key that the whole list holds twice.
      rw [if_pos hnew]
      refine .inr ⟨fun hall => ?_, template, key, location, rfl⟩
      have hnodup := hall.nodup
      rw [Entries.keys_append, List.nodup_append] at hnodup
      exact hnodup.2.2 key ((Entries.has_iff_mem_keys _ _).mp hnew) key List.mem_cons_self rfl
    · rw [if_neg hnew]
      -- The key is the last one in what the rest of the pass starts with.
      have hput : seen.put key v = seen ++ [(key, v)] :=
        Entries.put_eq_append (Entries.has_eq_false_iff.mp (Bool.eq_false_iff.mpr hnew)) v
      have hrest := ih (fun key d hmem => h key d (List.mem_cons_of_mem _ hmem))
        (hseen.put key hdistinct) hws
      rw [hput, List.append_assoc, List.singleton_append] at hrest
      rw [hput]
      exact hrest

/-- A draft with a value entry by entry has that value, or else reports a duplicate key. -/
theorem evaluate_settles (hcontext : context.Distinct) {d : Draft} {v : Value}
    (h : d.evaluateEntrywise? context = some v) (location : String) :
    Settles (d.evaluate context location) v v.Distinct := by
  -- By induction on the draft, along the value that it has entry by entry.
  induction d generalizing location v with
  | null =>
    obtain rfl := Option.some.inj h
    exact .inl ⟨.null, rfl⟩
  | bool b =>
    obtain rfl := Option.some.inj h
    exact .inl ⟨.bool b, rfl⟩
  | number n =>
    obtain rfl := Option.some.inj h
    exact .inl ⟨.number n, rfl⟩
  | text template =>
    rw [evaluateEntrywise?] at h
    have hv := (Template.evaluateText_agree context "" location template).ok_left
      (Except.toOption_eq_some.mp h)
    exact .inl ⟨Template.evaluateText_distinct hcontext location template v hv, hv⟩
  | list items ih =>
    rw [evaluateEntrywise?] at h
    obtain ⟨vs, hvs, rfl⟩ := Option.map_eq_some_iff.mp h
    rw [evaluate]
    refine (evaluateItems_settles (fun d hd location v hv => ih d hd hv location) location 0
      hvs).bind id fun hdistinct => .inl ⟨hdistinct, rfl⟩
  | map entries ih =>
    rw [evaluateEntrywise?] at h
    obtain ⟨vs, hvs, rfl⟩ := Option.map_eq_some_iff.mp h
    rw [evaluate]
    refine (evaluateEntries_settles (fun key d hmem location v hv => ih key d hmem hv location)
      location .empty hvs).bind id fun hdistinct => .inl ⟨hdistinct, rfl⟩

end Evaluation

/-! ## Both together -/

/-- Binding keeps every entry of every map, in order, exactly if no two keys of a map become the
same text. Evaluating the bound draft always keeps every entry, and reports a key that is there
twice. -/
theorem bind_entrywise {b : Binding} {d r : Draft} {location : String}
    (h : d.bind b location = .ok r) :
    (r = d.bindEntrywise b ↔ d.Separate b) ∧
      ∀ context : Context, context.Distinct → ∀ location,
        (∀ v, r.evaluate context location = .ok v ↔
          r.evaluateEntrywise? context = some v ∧ v.Distinct) ∧
        ∀ v, r.evaluateEntrywise? context = some v → ¬v.Distinct →
          ReportsDuplicate (r.evaluate context location) := by
  refine ⟨bind_eq_entrywise_iff h, fun context hcontext location => ⟨?_, ?_⟩⟩
  · intro v
    constructor
    · intro hv
      exact ⟨evaluateEntrywise?_of_evaluate hv, evaluate_distinct hcontext r location v hv⟩
    · rintro ⟨hv, hdistinct⟩
      rcases evaluate_settles hcontext hv location with ⟨-, hok⟩ | ⟨hnot, -⟩
      · exact hok
      · exact absurd hdistinct hnot
  · intro v hv hnot
    rcases evaluate_settles hcontext hv location with ⟨hdistinct, -⟩ | ⟨-, hreports⟩
    · exact absurd hdistinct hnot
    · exact hreports

/-- Keys that become different texts with the same value are both kept, and reported. -/
theorem keyed_bind_entrywise :
    let tags := Draft.map [("${each.key}", .text "bound"), ("web", .text "plain")]
    ∃ r, tags.bind (.each "web" .null) "tags" = .ok r ∧
      r = tags.bindEntrywise (.each "web" .null) ∧
      ReportsDuplicate (r.evaluate ⟨[], []⟩ "tags") := by
  intro tags
  let r := Draft.map [("$\x7b\"web\"\x7d", .text "bound"), ("web", .text "plain")]
  have hbind : tags.bind (.each "web" .null) "tags" = .ok r := by cbv
  have hboth : r.evaluateEntrywise? ⟨[], []⟩ =
      some (.map [("web", .text "bound"), ("web", .text "plain")]) := by cbv
  have hseparate : tags.Separate (.each "web" .null) := by
    refine .map ?_ ?texts
    case texts =>
      intro key d hmem
      rcases List.mem_pair.mp hmem with heq | heq <;> obtain ⟨-, rfl⟩ := Prod.mk.inj heq
      · exact .text _
      · exact .text _
    have hkeys : (Entries.keys [("${each.key}", Draft.text "bound"), ("web", .text "plain")]).map
        (Template.bound (.each "web" .null)) = ["$\x7b\"web\"\x7d", "web"] := by cbv
    rw [hkeys]
    decide
  obtain ⟨hiff, hevaluate⟩ := bind_entrywise hbind
  refine ⟨r, hbind, hiff.mpr hseparate, ?_⟩
  refine (hevaluate ⟨[], []⟩ ⟨by simp, by simp⟩ "tags").2 _ hboth fun hdistinct => ?_
  exact absurd hdistinct.nodup (by decide)

/-- Keys that become the same text are merged: of two entries the last is left, and nothing is
reported. -/
theorem bind_merges_keys :
    let tags := Draft.map [("${each.key}", .text "first"), ("${each.value}", .text "last")]
    let merged := Draft.map [("$\x7b\"web\"\x7d", .text "last")]
    tags.bind (.each "web" (.text "web")) "tags" = .ok merged ∧
      merged ≠ tags.bindEntrywise (.each "web" (.text "web")) ∧
      merged.evaluate ⟨[], []⟩ "tags" = .ok (.map [("web", .text "last")]) := by
  intro tags merged
  refine ⟨by cbv, ?_, by cbv⟩
  intro heq
  have hlength := congrArg List.length (Draft.map.inj heq)
  exact absurd hlength (by decide)

end Draft

end Deployment
