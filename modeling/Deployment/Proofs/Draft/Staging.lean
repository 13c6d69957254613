import Deployment.Draft.Binding
import Deployment.Proofs.Evaluation.Dependence
import Deployment.Proofs.Evaluation.Distinct
import Deployment.Proofs.Syntax.Quoting

/-! # Evaluation in stages

An attribute is resolved before the instances are known, bound for each instance, and evaluated at
the end. A draft without iteration symbols is done after the first stage: resolving it gives the
draft of its value, in which all markers are escaped. Binding finds nothing to replace in such a
draft, and evaluating it gives the value back (`Draft.resolve_bind_evaluate`).

Both passes build a map entry by entry and refuse a key that is there already, one of them by the
escaped text of the key. Escaping is injective, so they refuse the same keys.
-/

namespace Deployment

/-! ## Plain text -/

namespace Template

/-- An escaped text is read as that text alone. -/
theorem parse_plain (s : String) : parse (plain s) false = .ok (Expr.textPart s) := by
  have hwritten : (plain s).toList = written false s.toList ++ [] := by
    rw [List.append_nil, ← written_toList false s]
    rfl
  obtain ⟨next, hnext⟩ := Expr.parseTemplate_written false 0 "" (Follows.nil s.toList)
  rw [parse, hwritten, hnext, String.ofList_toList, String.empty_append, Expr.parseTemplate]

/-- Plain text refers to nothing. -/
theorem references_textPart (s : String) : references (Expr.textPart s) = [] := by
  unfold Expr.textPart
  split <;> rfl

/-- Plain text is evaluated to the text that was escaped. -/
theorem evaluateText_plain (context : Context) (location s : String) :
    evaluateText context location (plain s) = .ok (.text s) := by
  have hparts : Expr.evaluateParts context location (Expr.textPart s) = .ok s := by
    unfold Expr.textPart
    split
    · rename_i hs
      obtain rfl : s = "" := by simpa using hs
      rw [Expr.evaluateParts]
    · rw [Expr.evaluateParts, Expr.evaluateParts]
      exact congrArg Except.ok String.append_empty
  have hsingle : single? (Expr.textPart s) = none := by
    unfold Expr.textPart
    split <;> rfl
  rw [evaluateText, parse_plain]
  dsimp only
  rw [evaluate, Expr.evaluate_template _ _ hsingle, hparts]
  rfl

/-- As a key it is the text that was escaped, too. -/
theorem evaluateKey_plain (context : Context) (location key : String) :
    evaluateKey context location (plain key) = .ok key := by
  rw [evaluateKey, evaluateText_plain]
  rfl

/-- Different texts are escaped to different texts, as they can be told apart by evaluation. -/
theorem plain_injective : Function.Injective plain := by
  intro s t h
  have hs := evaluateText_plain ⟨[], []⟩ "" s
  rw [h, evaluateText_plain] at hs
  simpa using hs.symm

/-- In an escaped text there is nothing to bind. -/
theorem bindText_plain (b : Binding) (location s : String) :
    bindText b location (plain s) = .ok (plain s) := by
  rw [bindText, parse_plain]
  dsimp only
  rw [references_textPart]
  rfl

/-- A text mentions no iteration symbol exactly if none of its references has one at its root. -/
theorem mentionsIteration_eq_false_iff {text : String} :
    mentionsIteration text = false ↔
      ∀ r ∈ textReferences text, r.root ≠ "count" ∧ r.root ≠ "each" := by
  unfold mentionsIteration textReferences
  cases parse text false <;> simp

end Template

namespace Draft

/-! ## Drafts of values -/

section Values

variable {entries : Entries Value}

/-- The keys in the draft of a map are the escaped keys of the map. -/
theorem keys_ofEntries (entries : Entries Value) :
    Entries.keys (ofEntries entries) = entries.keys.map Template.plain := by
  induction entries with
  | nil => rfl
  | cons entry rest ih =>
    show _ :: Entries.keys (ofEntries rest) = _ :: (Entries.keys rest).map _
    rw [ih]

/-- Escaping keeps different keys different. -/
theorem nodup_keys_ofEntries (h : entries.keys.Nodup) :
    (Entries.keys (ofEntries entries)).Nodup := by
  rw [keys_ofEntries]
  exact h.map Template.plain_injective

/-- A key is there in the draft exactly if it is there in the map. -/
theorem has_ofEntries (entries : Entries Value) (key : String) :
    Entries.has (ofEntries entries) (Template.plain key) = entries.has key := by
  rw [Bool.eq_iff_iff, Entries.has_iff_mem_keys, Entries.has_iff_mem_keys, keys_ofEntries,
    List.mem_map_of_injective Template.plain_injective]

/-- Putting an entry commutes with making a draft. -/
theorem put_ofEntries (entries : Entries Value) (key : String) (v : Value) :
    Entries.put (ofEntries entries) (Template.plain key) (ofValue v) =
      ofEntries (entries.put key v) := by
  induction entries with
  | nil => rfl
  | cons entry rest ih =>
    obtain ⟨old, kept⟩ := entry
    by_cases hk : old = key
    · simp [ofEntries, Entries.put, hk]
    · have hplain : Template.plain old ≠ Template.plain key :=
        fun h => hk (Template.plain_injective h)
      simp [ofEntries, Entries.put, hk, hplain, ih]

/-- Writing pairs one by one commutes with making drafts of them. -/
theorem ofPairs_ofEntries (pairs : List (String × Value)) :
    Entries.ofPairs (ofEntries pairs) = ofEntries (Entries.ofPairs pairs) := by
  have hputAll (entries : Entries Value) :
      Entries.putAll (ofEntries entries) (ofEntries pairs) = ofEntries (entries.putAll pairs) := by
    induction pairs generalizing entries with
    | nil => rfl
    | cons pair rest ih =>
      obtain ⟨key, v⟩ := pair
      show Entries.putAll (Entries.put _ (Template.plain key) (ofValue v)) _ = _
      rw [put_ofEntries]
      exact ih _
  exact hputAll []

end Values

/-! ## Evaluating the draft of a value -/

section Evaluation

variable {context : Context}

/-- Drafts of items are evaluated back to the items. -/
theorem evaluateItems_ofItems {items : List Value}
    (h : ∀ v ∈ items, ∀ location, (ofValue v).evaluate context location = .ok v)
    (location : String) (i : Nat) :
    evaluateItems context location i (ofItems items) = .ok items := by
  induction items generalizing i with
  | nil => rfl
  | cons v rest ih =>
    have hrest := ih (fun v hv => h v (List.mem_cons_of_mem _ hv)) (i + 1)
    rw [ofItems, evaluateItems, h v List.mem_cons_self, hrest]
    rfl

/-- Drafts of entries are evaluated back to the entries, as their keys are new each time. -/
theorem evaluateEntries_ofEntries {entries : Entries Value}
    (h : ∀ key v, (key, v) ∈ entries →
      ∀ location, (ofValue v).evaluate context location = .ok v)
    (location : String) {seen : Entries Value} (hnodup : (Entries.keys (seen ++ entries)).Nodup) :
    evaluateEntries context location seen (ofEntries entries) = .ok (seen ++ entries) := by
  induction entries generalizing seen with
  | nil => rw [List.append_nil, ofEntries, evaluateEntries]
  | cons entry rest ih =>
    obtain ⟨key, v⟩ := entry
    -- The invariant: what is evaluated so far stands in front of what is still to come.
    obtain ⟨hnew, hsplit⟩ := Entries.append_cons_eq_put hnodup
    rw [hsplit] at hnodup ⊢
    rw [ofEntries, evaluateEntries, Template.evaluateKey_plain]
    show (do
      let v' ← (ofValue v).evaluate context (entryLocation location key)
      if seen.has key then _ else _) = _
    rw [h key v List.mem_cons_self]
    show (if seen.has key then _ else _) = _
    rw [Entries.has_eq_false_iff.mpr hnew, if_neg Bool.false_ne_true]
    exact ih (fun key v hmem => h key v (List.mem_cons_of_mem _ hmem)) hnodup

/-- The draft of a value is evaluated to the value, in every context and wherever it stands. -/
theorem evaluate_ofValue {v : Value} (h : v.Distinct) (context : Context) (location : String) :
    (ofValue v).evaluate context location = .ok v := by
  induction v generalizing location with
  | null => rfl
  | bool b => rfl
  | number n => rfl
  | text s => exact Template.evaluateText_plain context location s
  | list items ih =>
    have hitems := evaluateItems_ofItems (fun v hv location => ih v hv (h.mem hv) location)
      location 0
    rw [ofValue, evaluate, hitems]
    rfl
  | map entries ih =>
    have hentries : evaluateEntries context location [] (ofEntries entries) = .ok entries :=
      evaluateEntries_ofEntries (fun key v hmem location => ih key v hmem (h.entry hmem) location)
        location h.nodup
    rw [ofValue, evaluate, hentries]
    rfl

end Evaluation

/-! ## Binding the draft of a value -/

section Binding

variable {b : Binding}

/-- In drafts of items nothing is bound. -/
theorem bindItems_ofItems {items : List Value} {location : String}
    (h : ∀ v ∈ items, (ofValue v).bind b location = .ok (ofValue v)) :
    bindItems b location (ofItems items) = .ok (ofItems items) := by
  induction items with
  | nil => rfl
  | cons v rest ih =>
    have hrest := ih fun v hv => h v (List.mem_cons_of_mem _ hv)
    rw [ofItems, bindItems, h v List.mem_cons_self, hrest]
    rfl

/-- In drafts of entries nothing is bound, neither in keys nor in values. -/
theorem bindEntries_ofEntries {entries : Entries Value} (location : String)
    (h : ∀ key v, (key, v) ∈ entries →
      ∀ location, (ofValue v).bind b location = .ok (ofValue v)) :
    bindEntries b location (ofEntries entries) = .ok (ofEntries entries) := by
  induction entries with
  | nil => rfl
  | cons entry rest ih =>
    obtain ⟨key, v⟩ := entry
    have hrest := ih fun key v hmem => h key v (List.mem_cons_of_mem _ hmem)
    rw [ofEntries, bindEntries, Template.bindText_plain, h key v List.mem_cons_self, hrest]
    rfl

/-- In the draft of a value nothing is bound. -/
theorem bind_ofValue {v : Value} (h : v.Distinct) (b : Binding) (location : String) :
    (ofValue v).bind b location = .ok (ofValue v) := by
  induction v generalizing location with
  | null => rfl
  | bool b => rfl
  | number n => rfl
  | text s =>
    rw [ofValue, bind, Template.bindText_plain]
    rfl
  | list items ih =>
    rw [ofValue, bind, bindItems_ofItems fun v hv => ih v hv (h.mem hv) location]
    rfl
  | map entries ih =>
    have hentries := bindEntries_ofEntries location fun key v hmem => ih key v hmem (h.entry hmem)
    rw [ofValue, bind, hentries]
    show Except.ok (map (Entries.ofPairs (ofEntries entries))) = _
    rw [Entries.ofPairs_eq_self_iff.mpr (nodup_keys_ofEntries h.nodup)]

end Binding

/-! ## Resolving -/

/-- No text and no key in the draft interpolates an iteration symbol. -/
def Steady (d : Draft) : Prop :=
  ∀ r ∈ d.references, r.root ≠ "count" ∧ r.root ≠ "each"

namespace Steady

variable {items : List Draft} {entries : List (String × Draft)} {key : String} {d : Draft}

/-- An item of a steady list is steady. -/
theorem mem (h : (list items).Steady) (hd : d ∈ items) : d.Steady := by
  intro r hr
  apply h
  rw [references]
  exact mem_referencesOfItems.mpr ⟨d, hd, hr⟩

/-- A key of a steady map mentions no iteration symbol. -/
theorem mentionsIteration (h : (map entries).Steady) (hd : (key, d) ∈ entries) :
    Template.mentionsIteration key = false := by
  rw [Template.mentionsIteration_eq_false_iff]
  intro r hr
  apply h
  rw [references]
  exact mem_referencesOfEntries.mpr ⟨key, d, hd, .inl hr⟩

/-- The value of an entry of a steady map is steady. -/
theorem entry (h : (map entries).Steady) (hd : (key, d) ∈ entries) : d.Steady := by
  intro r hr
  apply h
  rw [references]
  exact mem_referencesOfEntries.mpr ⟨key, d, hd, .inr hr⟩

end Steady

section Resolution

variable {context : Context}

/-- Items are resolved to the drafts of what they are evaluated to. -/
theorem resolveItems_toOption {items : List Draft}
    (h : ∀ d ∈ items, ∀ location location', (d.resolve context location).toOption =
      (d.evaluate context location').toOption.map ofValue)
    (location location' : String) (i : Nat) :
    (resolveItems context location i items).toOption =
      (evaluateItems context location' i items).toOption.map ofItems := by
  induction items generalizing i with
  | nil => rfl
  | cons d rest ih =>
    have hd := h d List.mem_cons_self (itemLocation location i) (itemLocation location' i)
    have hrest := ih (fun d hd => h d (List.mem_cons_of_mem _ hd)) (i + 1)
    rw [resolveItems, evaluateItems, Except.toOption_bind, Except.toOption_bind, hd]
    cases (d.evaluate context (itemLocation location' i)).toOption with
    | none => rfl
    | some v =>
      simp only [Option.map_some, Option.bind_some, Except.toOption_bind, hrest]
      cases (evaluateItems context location' (i + 1) rest).toOption <;> rfl

/-- The entries that are resolved so far are the drafts of those that are evaluated so far. The two
passes name the place of an entry by its escaped and by its plain key. -/
theorem resolveEntries_toOption {entries : List (String × Draft)}
    (hkey : ∀ key d, (key, d) ∈ entries → Template.mentionsIteration key = false)
    (h : ∀ key d, (key, d) ∈ entries → ∀ location location',
      (d.resolve context location).toOption = (d.evaluate context location').toOption.map ofValue)
    (location location' : String) (seen : Entries Value) :
    (resolveEntries context location (ofEntries seen) entries).toOption =
      (evaluateEntries context location' seen entries).toOption.map ofEntries := by
  -- By induction on the entries, with those already seen on both sides.
  induction entries generalizing seen with
  | nil => rfl
  | cons entry rest ih =>
    obtain ⟨template, d⟩ := entry
    have hagree := Template.evaluateKey_agree context location location' template
    rw [Agree] at hagree
    rw [resolveEntries, evaluateEntries, hkey template d List.mem_cons_self,
      if_neg Bool.false_ne_true, Except.toOption_bind, Except.toOption_bind, hagree]
    cases (Template.evaluateKey context location' template).toOption with
    | none => rfl
    | some key =>
      have hd := h template d List.mem_cons_self
        (entryLocation location (Template.plain key)) (entryLocation location' key)
      have hrest := ih (fun key d hmem => hkey key d (List.mem_cons_of_mem _ hmem))
        (fun key d hmem => h key d (List.mem_cons_of_mem _ hmem))
      simp only [Option.bind_some, has_ofEntries, Except.toOption_bind]
      by_cases hseen : seen.has key
      · -- Only the evaluation looks at the value before it refuses the key.
        simp only [hseen, if_true, Except.toOption, Option.map_none, Option.bind_fun_none]
      · have hnew : seen.has key = false := Bool.eq_false_iff.mpr hseen
        simp only [hnew, Bool.false_eq_true, if_false, Except.toOption_bind, hd]
        cases (d.evaluate context (entryLocation location' key)).toOption with
        | none => rfl
        | some v =>
          rw [Option.map_some, Option.bind_some, Option.bind_some, put_ofEntries]
          exact hrest _

/-- Resolving gives the draft of the value that evaluating gives, and fails when that fails. -/
theorem resolve_toOption {d : Draft} (h : d.Steady) (location location' : String) :
    (d.resolve context location).toOption =
      (d.evaluate context location').toOption.map ofValue := by
  induction d generalizing location location' with
  | null => rfl
  | bool b => rfl
  | number n => rfl
  -- The only case with something to resolve. Without an iteration symbol the text is evaluated at
  -- once.
  | text template =>
    have hmentions : Template.mentionsIteration template = false :=
      Template.mentionsIteration_eq_false_iff.mpr (by simpa [Steady, references] using h)
    have hagree := Template.evaluateText_agree context location location' template
    rw [Agree] at hagree
    rw [resolve, evaluate, hmentions, if_neg Bool.false_ne_true, Except.toOption_bind, hagree]
    cases (Template.evaluateText context location' template).toOption <;> rfl
  | list items ih =>
    have hitems := resolveItems_toOption (fun d hd => ih d hd (h.mem hd)) location location' 0
    rw [resolve, evaluate, Except.toOption_bind, Except.toOption_bind, hitems]
    cases (evaluateItems context location' 0 items).toOption <;> rfl
  | map entries ih =>
    have hentries := resolveEntries_toOption (fun key d hmem => h.mentionsIteration hmem)
      (fun key d hmem => ih key d hmem (h.entry hmem)) location location' []
    rw [ofEntries] at hentries
    rw [resolve, evaluate, Except.toOption_bind, Except.toOption_bind, hentries]
    cases (evaluateEntries context location' [] entries).toOption <;> rfl

/-- A steady draft is resolved to the draft of its value. -/
theorem resolve_eq_ok_iff {d r : Draft} (h : d.Steady) (location : String) :
    d.resolve context location = .ok r ↔
      ∃ v, d.evaluate context location = .ok v ∧ r = ofValue v := by
  rw [← Except.toOption_eq_some, resolve_toOption h location location, Option.map_eq_some_iff]
  constructor
  · rintro ⟨v, hv, rfl⟩
    exact ⟨v, Except.toOption_eq_some.mp hv, rfl⟩
  · rintro ⟨v, hv, rfl⟩
    exact ⟨v, Except.toOption_eq_some.mpr hv, rfl⟩

/-- A draft without iteration symbols can be resolved exactly if it can be evaluated. Binding leaves
the resolved draft as it is, for every instance, and evaluating it at any later time gives the value
of the draft itself. -/
theorem resolve_bind_evaluate (hcontext : context.Distinct) {d : Draft} (h : d.Steady)
    (location : String) :
    ((∃ r, d.resolve context location = .ok r) ↔ ∃ v, d.evaluate context location = .ok v) ∧
      ∀ r, d.resolve context location = .ok r →
        (∀ b owner, r.bind b owner = .ok r) ∧
        ∃ v, d.evaluate context location = .ok v ∧
          ∀ context' location', r.evaluate context' location' = .ok v := by
  constructor
  · constructor
    · rintro ⟨r, hr⟩
      obtain ⟨v, hv, -⟩ := (resolve_eq_ok_iff h location).mp hr
      exact ⟨v, hv⟩
    · rintro ⟨v, hv⟩
      exact ⟨ofValue v, (resolve_eq_ok_iff h location).mpr ⟨v, hv, rfl⟩⟩
  · intro r hr
    obtain ⟨v, hv, rfl⟩ := (resolve_eq_ok_iff h location).mp hr
    have hdistinct : v.Distinct := evaluate_distinct hcontext d location v hv
    refine ⟨fun b owner => bind_ofValue hdistinct b owner, v, hv, ?_⟩
    intro context' location'
    exact evaluate_ofValue hdistinct context' location'

end Resolution

/-- A map whose key and item take their text from elsewhere. -/
def quoting : Draft :=
  .map [("${var.owner}-rules", .list [.text "${local.rule}", .bool true])]

/-- Text that looks like an iteration symbol in braces is text after all stages. -/
theorem quoting_resolve_bind_evaluate :
    let context : Context :=
      ⟨[("owner", .text "$\x7bteam\x7d")], [("rule", .text "$\x7bcount.index\x7d")]⟩
    quoting.Steady ∧ context.Distinct ∧
      ∃ r, quoting.resolve context "tags" = .ok r ∧ (∀ b owner, r.bind b owner = .ok r) ∧
        ∀ context' location', r.evaluate context' location' =
          .ok (.map [("$\x7bteam\x7d-rules",
            .list [.text "$\x7bcount.index\x7d", .bool true])]) := by
  intro context
  have hsteady : quoting.Steady := by
    have hreferences : quoting.references = [⟨"var", ["owner"]⟩, ⟨"local", ["rule"]⟩] := by cbv
    rw [Steady, hreferences]
    decide
  have hcontext : context.Distinct := by
    constructor <;> intro name v hmem <;> cases List.mem_singleton.mp hmem
    · exact .text _
    · exact .text _
  have hvalue : quoting.evaluate context "tags" = .ok (.map [("$\x7bteam\x7d-rules",
      .list [.text "$\x7bcount.index\x7d", .bool true])]) := by cbv
  obtain ⟨hresolves, hstages⟩ := resolve_bind_evaluate hcontext hsteady "tags"
  obtain ⟨r, hr⟩ := hresolves.mpr ⟨_, hvalue⟩
  obtain ⟨hbind, v, hv, hfinal⟩ := hstages r hr
  obtain rfl := Except.ok.inj (hvalue.symm.trans hv)
  exact ⟨hsteady, hcontext, r, hr, hbind, hfinal⟩

end Draft

end Deployment
