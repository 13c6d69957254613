import Deployment.Proofs.Context.Locals
import Mathlib.Data.List.Perm.Subperm

/-! # The order of local values

The walk of `resolveLocals` follows the order of declaration, and it learns what a local value needs
only from the failures of its evaluation. Still its success does not depend on that order. Suppose
that the local values can be settled in some order. Then each name on the stack waits for one that
comes before it in that order, so no cycle is closed, and the rounds are enough
(`resolveLocals_succeeds`). Two orders settle the same values (`Settled.compatible`).
-/

namespace Deployment

namespace Entries

variable {α : Type}

/-- Entries with different keys in another order have the same values. -/
theorem get?_eq_of_perm {entries entries' : Entries α} (hperm : entries.Perm entries')
    (hnodup : entries.keys.Nodup) (key : String) : entries.get? key = entries'.get? key := by
  have hnodup' : entries'.keys.Nodup := (hperm.map _).nodup_iff.mp hnodup
  refine Option.ext fun value => ?_
  rw [get?_eq_some_iff hnodup, get?_eq_some_iff hnodup', hperm.mem_iff]

end Entries

namespace Context

variable {definitions : Entries Draft} {vars : Entries Value}

/-! ## Two settled scopes -/

/-- No name has different values in two settled scopes. -/
theorem Settled.compatible {locals full : Entries Value}
    (hlocals : Settled definitions vars locals) (hfull : Settled definitions vars full) :
    Compatible locals full := by
  induction hlocals with
  | nil =>
    rintro name v w ⟨⟩
  | @snoc locals name d value settled missing defined evaluates ih =>
    intro other v w hv hw
    rw [Entries.get?_append] at hv
    cases hold : locals.get? other with
    | some u =>
      obtain rfl : u = v := by simpa [hold] using hv
      exact ih other u w hold hw
    | none =>
      obtain ⟨rfl, rfl⟩ : name = other ∧ value = v := by
        simpa [hold, Entries.get?] using hv
      -- The scope `before` in which `full` found the value is compatible with `locals`.
      obtain ⟨before, after, rfl⟩ := List.append_of_mem (Entries.mem_of_get? hw)
      obtain ⟨-, -, d', hd', heval⟩ := hfull.split rfl
      obtain rfl : d = d' := Option.some.inj (defined.symm.trans hd')
      have hbefore : Compatible locals before := fun a v w hv hw =>
        ih a v w hv (by rw [Entries.get?_append, hw, Option.some_or])
      rcases Draft.evaluate_tracks hbefore _ _ d w heval with hw | ⟨_, _, herror, -, -⟩
      · exact Except.ok.inj (evaluates.symm.trans hw)
      · rw [evaluates] at herror
        cases herror

/-- Only the definitions matter to what is settled, not their order. -/
theorem Settled.of_get? {definitions' : Entries Draft} {locals : Entries Value}
    (h : Settled definitions vars locals)
    (heq : ∀ name, definitions.get? name = definitions'.get? name) :
    Settled definitions' vars locals := by
  induction h with
  | nil => exact .nil
  | snoc settled missing defined evaluates ih =>
    exact .snoc ih missing (heq _ ▸ defined) evaluates

/-! ## A run under an order -/

/-- All definitions are settled in some order. -/
structure Orders (definitions : Entries Draft) (vars full : Entries Value) : Prop where
  settled : Settled definitions vars full
  complete : ∀ name, definitions.has name → full.has name

namespace Orders

variable {full locals : Entries Value} {stack below pending : List String} {current : String}

/-- All orders settle the same values. -/
theorem get?_eq (h : Orders definitions vars full) (h' : Orders definitions vars locals)
    (name : String) : full.get? name = locals.get? name := by
  have hhas {a b : Entries Value} (h : Orders definitions vars a) (h' : Orders definitions vars b)
      (hname : a.has name) : b.has name :=
    h'.complete name ((Entries.has_iff_mem_keys _ _).mpr
      (h.settled.defined_of_mem ((Entries.has_iff_mem_keys _ _).mp hname)))
  cases hv : full.get? name with
  | none =>
    refine (Entries.has_eq_false_iff.mp (Bool.eq_false_iff.mpr fun hlocals => ?_)).symm
    have := hhas h' h hlocals
    rw [Entries.has, hv] at this
    cases this
  | some v =>
    obtain ⟨w, hw⟩ := Option.isSome_iff_exists.mp (hhas h h' (by simp [Entries.has, hv]))
    rw [hw, h.settled.compatible h'.settled name v w hv hw]

/-- The place of a name in the order. -/
abbrev place (full : Entries Value) (name : String) : Nat :=
  full.keys.idxOf name

/-- Wherever the run is, the name on top of the stack gets its value, or it waits for a declared one
that comes before it. -/
theorem round_cases (h : Orders definitions vars full)
    (hc : Consistent definitions vars (current :: below) locals)
    (hdefined : definitions.has current)
    (hsorted : (current :: below).Pairwise (place full · < place full ·)) :
    (∃ value, round definitions ⟨vars, locals⟩ current (current :: below) = .stored value) ∨
      ∃ dependency, round definitions ⟨vars, locals⟩ current (current :: below) =
          .waiting dependency ∧
        definitions.has dependency ∧ locals.get? dependency = none ∧
        (dependency :: current :: below).Pairwise (place full · < place full ·) := by
  obtain ⟨w, hw⟩ := Option.isSome_iff_exists.mp (h.complete current hdefined)
  obtain ⟨before, after, rfl⟩ := List.append_of_mem (Entries.mem_of_get? hw)
  obtain ⟨hbefore, hmissing, d, hd, heval⟩ := h.settled.split rfl
  rcases Draft.evaluate_tracks (hc.settled.compatible hbefore) _ (localName current) d w heval with
    hvalue | ⟨name, location, herror, hnone, hhas⟩
  · exact .inl ⟨w, round_eq_stored_iff.mpr ⟨d, hd, hvalue⟩⟩
  · have hname : definitions.has name :=
      (Entries.has_iff_mem_keys _ _).mpr
        (hbefore.defined_of_mem ((Entries.has_iff_mem_keys _ _).mp hhas))
    -- What the current name needs was settled before it.
    have hplace : place (before ++ (current, w) :: after) name <
        place (before ++ (current, w) :: after) current := by
      rw [Entries.has_iff_mem_keys] at hhas
      rw [Entries.get?_eq_none_iff] at hmissing
      have hkeys : Entries.keys (before ++ (current, w) :: after) =
          Entries.keys before ++ current :: Entries.keys after := by simp [Entries.keys]
      rw [place, place, hkeys, List.idxOf_append_of_mem hhas, List.idxOf_append_of_notMem hmissing,
        List.idxOf_cons_self]
      exact List.idxOf_lt_length_of_mem hhas
    have hsorted' : (name :: current :: below).Pairwise
        (place (before ++ (current, w) :: after) · <
          place (before ++ (current, w) :: after) ·) := by
      refine List.pairwise_cons.mpr ⟨fun other hother => ?_, hsorted⟩
      rcases List.mem_cons.mp hother with rfl | hbelow
      · exact hplace
      · exact hplace.trans ((List.pairwise_cons.mp hsorted).1 other hbelow)
    have hstack : name ∉ current :: below := fun hmem =>
      absurd ((List.pairwise_cons.mp hsorted').1 name hmem) (Nat.lt_irrefl _)
    exact .inr ⟨name, round_eq_waiting_iff.mpr ⟨hstack, hname, d, location, hd, herror⟩, hname,
      hnone, hsorted'⟩

end Orders

/-- The names found and the names on the stack are declared ones. -/
theorem Consistent.length_le {stack : List String} {locals : Entries Value}
    (h : Consistent definitions vars stack locals) (hstack : ∀ name ∈ stack, definitions.has name) :
    locals.length + stack.length ≤ definitions.length := by
  have hnodup : (locals.keys ++ stack).Nodup := by
    refine List.nodup_append.mpr ⟨h.settled.keys_nodup, h.nodup, fun a ha b hb => ?_⟩
    rintro rfl
    exact Entries.get?_eq_none_iff.mp (h.missing a hb) ha
  have hsubset : locals.keys ++ stack ⊆ definitions.keys := by
    intro name hname
    rcases List.mem_append.mp hname with hfound | hwaiting
    · exact h.settled.defined_of_mem hfound
    · exact (Entries.has_iff_mem_keys _ _).mp (hstack name hwaiting)
  simpa [Entries.keys] using (hnodup.subperm hsubset).length_le

/-- If there is an order to settle all definitions in, the run succeeds whatever its own order. -/
theorem resolveLocals_succeeds {full : Entries Value} (h : Orders definitions vars full)
    {rounds : Nat} {pending stack : List String} {locals : Entries Value}
    (hc : Consistent definitions vars stack locals)
    (hstack : ∀ name ∈ stack, definitions.has name)
    (hpending : ∀ name ∈ pending, definitions.has name)
    (hsorted : stack.Pairwise (Orders.place full · < Orders.place full ·))
    (hrounds : 2 * definitions.length ≤ rounds + (2 * locals.length + stack.length)) :
    ∃ result, resolveLocals definitions vars rounds pending stack locals = .ok result := by
  induction rounds, pending, stack, locals using resolveLocals_induction with
  | done rounds pending locals hp =>
    rw [resolveLocals_nil, hp]
    exact ⟨locals, rfl⟩
  | next rounds pending locals current rest hp ih =>
    rw [resolveLocals_nil, hp]
    have hrest (name : String) (hname : name ∈ current :: rest) : definitions.has name :=
      hpending name ((List.dropWhile_suffix locals.has).subset (hp ▸ hname))
    refine ih (hc.next (get?_eq_none_of_dropWhile hp)) ?_
      (fun name hname => hrest name (by simp [hname])) (by simp) ?_
    · simpa using hrest current (by simp)
    · simp only [List.length_nil, List.length_singleton] at hrounds ⊢
      omega
  | spent pending current below locals =>
    have := hc.length_le hstack
    simp only [List.length_cons] at this hrounds
    omega
  | round rounds pending current below locals ih =>
    rw [resolveLocals_succ]
    rcases h.round_cases hc (hstack current (by simp)) hsorted with
      ⟨value, hround⟩ | ⟨dependency, hround, hdefined, hmissing, hsorted'⟩
    · rw [hround]
      refine ih _ _ (hc.stored hround) (fun name hname => hstack name (by simp [hname])) hpending
        (List.pairwise_cons.mp hsorted).2 ?_
      rw [Entries.put_eq_append (hc.missing current (by simp))]
      simp only [List.length_cons, List.length_append, List.length_nil] at hrounds ⊢
      omega
    · rw [hround]
      obtain ⟨hnotmem, -⟩ := round_eq_waiting_iff.mp hround
      have hnodup := List.nodup_cons.mpr ⟨hnotmem, hc.nodup⟩
      refine ih _ _ ⟨hc.settled, hnodup, ?_⟩ ?_ hpending hsorted' ?_
      · exact List.forall_mem_cons.mpr ⟨hmissing, hc.missing⟩
      · exact List.forall_mem_cons.mpr ⟨hdefined, hstack⟩
      · simp only [List.length_cons] at hrounds ⊢
        omega

end Context

/-! ## Documents -/

open Context

/-- A document whose local values can be settled in some order is resolved. -/
theorem Document.resolveContext_of_orders {document : Document} {overrides full : Entries Value}
    (h : Orders document.locals (variablesOf document.vars overrides) full) :
    ∃ context, document.resolveContext overrides = .ok context := by
  have hstart : Consistent document.locals (variablesOf document.vars overrides) [] [] :=
    ⟨.nil, List.nodup_nil, by simp⟩
  have hpending (name : String) : name ∈ document.locals.keys → document.locals.has name :=
    (Entries.has_iff_mem_keys _ _).mpr
  have hrounds : 2 * document.locals.length ≤ 2 * document.locals.length + (2 * 0 + 0) := by omega
  obtain ⟨locals, hrun⟩ := resolveLocals_succeeds h hstart (by simp) hpending .nil hrounds
  exact ⟨⟨_, locals⟩, resolveContext_eq_ok_iff.mpr ⟨rfl, hrun⟩⟩

/-- The local values of a resolved document show an order to settle them in. -/
theorem Document.orders_of_resolveContext {document : Document} {overrides : Entries Value}
    {context : Context} (hplain : ∀ name ∈ document.locals.keys, PlainName name)
    (h : document.resolveContext overrides = .ok context) :
    Orders document.locals (variablesOf document.vars overrides) context.locals := by
  obtain ⟨hsettled, hall⟩ := resolveContext_settled hplain h
  rw [(resolveContext_eq_ok_iff.mp h).1] at hsettled
  exact ⟨hsettled, fun name hname => hall name ((Entries.has_iff_mem_keys _ _).mp hname)⟩

/-- Documents that differ in the order of their local values are both resolved or both not, and the
local values are the same. Resolved are all documents whose local values can be found one after the
other in some order. -/
theorem Document.resolveContext_perm (document : Document) {reordered : Entries Draft}
    (hperm : document.locals.Perm reordered) (hlocals : document.locals.keys.Nodup)
    (hplain : ∀ name ∈ document.locals.keys, PlainName name) (overrides : Entries Value) :
    ((∃ context, document.resolveContext overrides = .ok context) ↔
        ∃ context, { document with locals := reordered }.resolveContext overrides = .ok context) ∧
      (∀ context context', document.resolveContext overrides = .ok context →
        { document with locals := reordered }.resolveContext overrides = .ok context' →
        context.vars = context'.vars ∧
          ∀ name, context.locals.get? name = context'.locals.get? name) ∧
      ∀ full, Settled document.locals (variablesOf document.vars overrides) full →
        full.keys.Perm document.locals.keys →
        ∃ context, document.resolveContext overrides = .ok context := by
  have hget := Entries.get?_eq_of_perm hperm hlocals
  have hhas (name : String) : document.locals.has name = Entries.has reordered name := by
    rw [Entries.has, Entries.has, hget name]
  have hplain' (name : String) (hname : name ∈ Entries.keys reordered) : PlainName name :=
    hplain name ((hperm.map _).mem_iff.mpr hname)
  have horders (full : Entries Value) :
      Orders document.locals (variablesOf document.vars overrides) full ↔
        Orders reordered (variablesOf document.vars overrides) full := by
    constructor
    · rintro ⟨hsettled, hcomplete⟩
      exact ⟨hsettled.of_get? hget, fun name hname => hcomplete name (hhas name ▸ hname)⟩
    · rintro ⟨hsettled, hcomplete⟩
      exact ⟨hsettled.of_get? fun name => (hget name).symm,
        fun name hname => hcomplete name (hhas name ▸ hname)⟩
  refine ⟨⟨?_, ?_⟩, fun context context' h h' => ?_, fun full hsettled hkeys => ?_⟩
  · rintro ⟨context, h⟩
    exact resolveContext_of_orders ((horders _).mp (orders_of_resolveContext hplain h))
  · rintro ⟨context, h⟩
    exact resolveContext_of_orders ((horders _).mpr (orders_of_resolveContext hplain' h))
  · refine ⟨(resolveContext_eq_ok_iff.mp h).1.trans (resolveContext_eq_ok_iff.mp h').1.symm,
      fun name => ?_⟩
    have horder := orders_of_resolveContext hplain h
    have horder' := (horders _).mpr (orders_of_resolveContext hplain' h')
    exact horder.get?_eq horder' name
  · exact resolveContext_of_orders ⟨hsettled, fun name hname => (Entries.has_iff_mem_keys _ _).mpr
      (hkeys.mem_iff.mpr ((Entries.has_iff_mem_keys _ _).mp hname))⟩

/-- In the order that `Document.backward` avoids, its local values are found too. -/
theorem Document.backward_perm :
    ∃ context, { backward with
      locals := [("a", .text "${var.on}"), ("b", .text "${local.a}")] }.resolveContext [] =
        .ok context :=
  (resolveContext_perm backward (.swap _ _ _) (by decide) (by decide) []).1.mp
    ⟨_, backward_resolves⟩

end Deployment
