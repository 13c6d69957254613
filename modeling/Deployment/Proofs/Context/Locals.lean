import Deployment.Config.Scan
import Deployment.Proofs.Context.Blame
import Deployment.Proofs.Context.Progress
import Deployment.Proofs.Entries
import Mathlib

/-! # Local values are a fixed point of their definitions

`resolveLocals` walks over the declared names with a stack of pending ones. Its invariant is
`Consistent`: the local values found so far are `Settled`, each having been evaluated from its
definition in a context with only those before it, and the pending names are different and not
found yet. `Round` has one lemma for each outcome, `Consistent` is kept by every round, and
`resolveLocals_settled` is the induction over the rounds. Together with `Draft.evaluate_mono` this
says that every local value is what its definition evaluates to, both where it was found and at the
end (`Document.resolveContext_fixedPoint`).
-/

namespace Deployment

namespace Context

/-! ## Settled local values -/

/-- Local values found one after the other: each is what its definition evaluates to in the context
with only those before it. -/
inductive Settled (definitions : Entries Draft) (vars : Entries Value) : Entries Value → Prop
  | nil : Settled definitions vars []
  | snoc {locals : Entries Value} {name : String} {d : Draft} {value : Value}
      (settled : Settled definitions vars locals) (missing : locals.get? name = none)
      (defined : definitions.get? name = some d)
      (evaluates : d.evaluate ⟨vars, locals⟩ (localName name) = .ok value) :
      Settled definitions vars (locals ++ [(name, value)])

namespace Settled

variable {definitions : Entries Draft} {vars locals : Entries Value}

/-- Settled local values have different names, as each was missing when it was found. -/
theorem keys_nodup (h : Settled definitions vars locals) : locals.keys.Nodup := by
  induction h with
  | nil => simp [Entries.keys]
  | snoc settled missing _ _ ih =>
    rw [Entries.keys, List.map_append, List.nodup_append]
    refine ⟨ih, by simp, fun a ha b hb => ?_⟩
    obtain rfl : b = _ := by simpa using hb
    rintro rfl
    exact Entries.get?_eq_none_iff.mp missing ha

/-- Every settled local value is declared. -/
theorem defined_of_mem (h : Settled definitions vars locals) {name : String}
    (hname : name ∈ locals.keys) : name ∈ definitions.keys := by
  induction h with
  | nil => simp [Entries.keys] at hname
  | snoc settled missing defined _ ih =>
    rw [Entries.keys, List.map_append, List.mem_append] at hname
    rcases hname with hold | hnew
    · exact ih hold
    · obtain rfl : name = _ := by simpa using hnew
      rw [← Entries.has_iff_mem_keys, Entries.has, defined]
      rfl

/-- Every settled local value is what its definition evaluates to before it. -/
theorem split (h : Settled definitions vars locals) {before after : Entries Value} {name : String}
    {value : Value} (heq : locals = before ++ (name, value) :: after) :
    Settled definitions vars before ∧ before.get? name = none ∧
      ∃ d, definitions.get? name = some d ∧
        d.evaluate ⟨vars, before⟩ (localName name) = .ok value := by
  induction h generalizing after with
  | nil => simp at heq
  | snoc settled missing defined evaluates ih =>
    rcases List.eq_nil_or_concat after with rfl | ⟨after', last, rfl⟩
    · obtain ⟨rfl, hlast⟩ := List.append_inj' heq rfl
      cases hlast
      exact ⟨settled, missing, _, defined, evaluates⟩
    · rw [List.concat_eq_append, ← List.cons_append, ← List.append_assoc] at heq
      exact ih (List.append_inj' heq rfl).1

end Settled

/-! ## One round -/

section Round

variable {definitions : Entries Draft} {context : Context} {current : String}
  {stack : List String}

/-- A value is stored if the definition evaluates to it. -/
theorem round_eq_stored_iff {value : Value} :
    round definitions context current stack = .stored value ↔
      ∃ d, definitions.get? current = some d ∧
        d.evaluate context (localName current) = .ok value := by
  unfold round
  cases definitions.get? current with
  | none => simp
  | some d =>
    simp only [Option.some.injEq, exists_eq_left']
    split
    · rename_i v hv
      simp [hv]
    · rename_i expr location he
      simp only [he, reduceCtorEq, iff_false]
      split
      · simp
      · split <;> simp
    · rename_i e _ he
      simp [he]

/-- A local value waits for a declared one that the evaluation of its definition has missed, and
that does not wait itself. -/
theorem round_eq_waiting_iff {dependency : String} :
    round definitions context current stack = .waiting dependency ↔
      dependency ∉ stack ∧ definitions.has dependency ∧
        ∃ d location, definitions.get? current = some d ∧
          d.evaluate context (localName current) =
            .error (.unresolved (localName dependency) location) := by
  unfold round
  cases definitions.get? current with
  | none => simp
  | some d =>
    simp only [Option.some.injEq, exists_and_left, exists_eq_left']
    -- The outcomes of the evaluation: a value, an unresolved expression, any other failure.
    split
    · rename_i v hv
      simp [hv]
    · rename_i expr location he
      simp only [he, Except.error.injEq, Failure.unresolved.injEq, exists_and_left, exists_eq',
        and_true]
      constructor
      · intro h
        split at h
        · cases h
        · rename_i name hname
          obtain ⟨hof, hhas⟩ := Option.filter_eq_some_iff.mp hname
          split at h
          · cases h
          · rename_i hstack
            cases h
            exact ⟨by simpa using hstack, hhas, eq_localName_of_localOf? hof⟩
      · rintro ⟨hstack, hhas, rfl⟩
        simp [Option.filter, hhas, hstack]
    · rename_i e hne he
      simp only [he, Except.error.injEq, reduceCtorEq, false_iff]
      rintro ⟨-, -, location, rfl⟩
      exact hne _ _ rfl

end Round

/-! ## The invariant -/

section Run

variable {definitions : Entries Draft} {vars : Entries Value}

/-- What holds between the rounds: the values found so far are settled, and the names on the stack
are different and have no value yet. -/
structure Consistent (definitions : Entries Draft) (vars : Entries Value) (stack : List String)
    (locals : Entries Value) : Prop where
  settled : Settled definitions vars locals
  nodup : stack.Nodup
  missing : ∀ name ∈ stack, locals.get? name = none

namespace Consistent

variable {stack below : List String} {locals : Entries Value} {current : String}

/-- The walk over the declared names goes on with the next one that has no value. -/
theorem next (h : Consistent definitions vars [] locals) {name : String}
    (hname : locals.get? name = none) : Consistent definitions vars [name] locals where
  settled := h.settled
  nodup := by simp
  missing := by simpa using hname

/-- A value that is found is settled, and its name leaves the stack. -/
theorem stored (h : Consistent definitions vars (current :: below) locals) {value : Value}
    (hround : round definitions ⟨vars, locals⟩ current (current :: below) = .stored value) :
    Consistent definitions vars below (locals.put current value) := by
  obtain ⟨d, hd, hvalue⟩ := round_eq_stored_iff.mp hround
  have hmissing := h.missing current (by simp)
  obtain ⟨hcurrent, hbelow⟩ := List.nodup_cons.mp h.nodup
  refine ⟨?_, hbelow, fun name hname => ?_⟩
  · rw [Entries.put_eq_append hmissing]
    exact .snoc h.settled hmissing hd hvalue
  · have hne : name ≠ current := by
      rintro rfl
      exact hcurrent hname
    rw [Entries.get?_put_of_ne _ _ hne]
    exact h.missing name (by simp [hname])

/-- A name that is waited for has no value and is not on the stack, so it can be put there. -/
theorem waiting (hplain : ∀ name ∈ definitions.keys, PlainName name)
    (h : Consistent definitions vars stack locals) {dependency : String}
    (hround : round definitions ⟨vars, locals⟩ current stack = .waiting dependency) :
    Consistent definitions vars (dependency :: stack) locals := by
  obtain ⟨hstack, hhas, d, location, hd, heval⟩ := round_eq_waiting_iff.mp hround
  refine ⟨h.settled, List.nodup_cons.mpr ⟨hstack, h.nodup⟩, fun name hname => ?_⟩
  rcases List.mem_cons.mp hname with rfl | hold
  · have hname := hplain name ((Entries.has_iff_mem_keys _ _).mp hhas)
    exact (Draft.evaluate_blames (localName current) d).missing name location hname heval
  · exact h.missing name hold

end Consistent

/-! ## The run -/

/-- With an empty stack, names with values are skipped. -/
theorem resolveLocals_nil (rounds : Nat) (pending : List String) (locals : Entries Value) :
    resolveLocals definitions vars rounds pending [] locals =
      match pending.dropWhile locals.has with
      | [] => .ok locals
      | name :: rest => resolveLocals definitions vars rounds rest [name] locals := by
  rw [resolveLocals.eq_def]
  cases h : pending.dropWhile locals.has with
  | nil => simp [h]
  | cons name rest => cases rounds <;> simp only [h] <;> rfl

/-- With a name on the stack, a round is spent on it. -/
theorem resolveLocals_succ (rounds : Nat) (pending below : List String) (current : String)
    (locals : Entries Value) :
    resolveLocals definitions vars (rounds + 1) pending (current :: below) locals =
      match round definitions ⟨vars, locals⟩ current (current :: below) with
      | .stored value =>
        resolveLocals definitions vars rounds pending below (locals.put current value)
      | .waiting dependency =>
        resolveLocals definitions vars rounds pending (dependency :: current :: below) locals
      | .failed failure => .error failure :=
  rfl

/-- Induction over a run: with an empty stack it ends or takes up a pending name, and otherwise it
has no rounds left or spends one. -/
theorem resolveLocals_induction {motive : Nat → List String → List String → Entries Value → Prop}
    (done : ∀ rounds pending locals, pending.dropWhile locals.has = [] →
      motive rounds pending [] locals)
    (next : ∀ rounds pending locals name rest, pending.dropWhile locals.has = name :: rest →
      motive rounds rest [name] locals → motive rounds pending [] locals)
    (spent : ∀ pending current below locals, motive 0 pending (current :: below) locals)
    (round : ∀ rounds pending current below locals,
      (∀ stack locals, motive rounds pending stack locals) →
      motive (rounds + 1) pending (current :: below) locals)
    (rounds : Nat) (pending stack : List String) (locals : Entries Value) :
    motive rounds pending stack locals := by
  have pop (rounds : Nat)
      (h : ∀ pending current below locals, motive rounds pending (current :: below) locals)
      (pending stack : List String) (locals : Entries Value) :
      motive rounds pending stack locals := by
    cases stack with
    | cons current below => exact h pending current below locals
    | nil =>
      cases hp : pending.dropWhile locals.has with
      | nil => exact done _ _ _ hp
      | cons name rest => exact next _ _ _ _ _ hp (h rest name [] locals)
  induction rounds generalizing pending stack locals with
  | zero => exact pop 0 (spent · · · ·) pending stack locals
  | succ rounds ih =>
    exact pop _ (fun pending current below locals =>
      round rounds pending current below locals fun stack locals => ih pending stack locals) _ _ _

/-- The names that the walk skips have values. -/
theorem has_of_mem_pending {pending rest : List String} {locals : Entries Value} {name : String}
    (hname : name ∈ pending) (h : pending.dropWhile locals.has = rest) :
    locals.has name ∨ name ∈ rest := by
  rw [← List.takeWhile_append_dropWhile (p := locals.has) (l := pending), List.mem_append] at hname
  rcases hname with hskipped | hrest
  · exact .inl ((List.mem_takeWhile_imp hskipped))
  · exact .inr (h ▸ hrest)

/-- The name at which the walk stops skipping has no value. -/
theorem get?_eq_none_of_dropWhile {pending rest : List String} {locals : Entries Value}
    {name : String} (h : pending.dropWhile locals.has = name :: rest) :
    locals.get? name = none := by
  have := List.head?_dropWhile_not locals.has pending
  simpa [h, Entries.has_eq_false_iff] using this

/-- A successful run settles local values: those it started with, those on the stack and the pending
ones. -/
theorem resolveLocals_settled (hplain : ∀ name ∈ definitions.keys, PlainName name) {rounds : Nat}
    {pending stack : List String} {locals result : Entries Value}
    (h : Consistent definitions vars stack locals)
    (hrun : resolveLocals definitions vars rounds pending stack locals = .ok result) :
    Settled definitions vars result ∧
      ∀ name, locals.has name ∨ name ∈ stack ∨ name ∈ pending → result.has name := by
  -- By induction on the run, with `Consistent` as its invariant. A name that is found, stacked or
  -- pending stays one of these until it is found.
  induction rounds, pending, stack, locals using resolveLocals_induction with
  | done rounds pending locals hp =>
    rw [resolveLocals_nil, hp] at hrun
    obtain rfl : locals = result := Except.ok.inj hrun
    refine ⟨h.settled, fun name hname => ?_⟩
    rcases hname with hhas | hstack | hpending
    · exact hhas
    · cases hstack
    · simpa using has_of_mem_pending hpending hp
  | next rounds pending locals current rest hp ih =>
    rw [resolveLocals_nil, hp] at hrun
    obtain ⟨hsettled, hall⟩ := ih (h.next (get?_eq_none_of_dropWhile hp)) hrun
    refine ⟨hsettled, fun name hname => hall name ?_⟩
    rcases hname with hhas | hstack | hpending
    · exact .inl hhas
    · cases hstack
    · rcases has_of_mem_pending hpending hp with hhas | hrest
      · exact .inl hhas
      · rcases List.mem_cons.mp hrest with rfl | hrest
        · exact .inr (.inl (by simp))
        · exact .inr (.inr hrest)
  | spent pending current below locals => cases hrun
  | round rounds pending current below locals ih =>
    rw [resolveLocals_succ] at hrun
    split at hrun
    · rename_i value hround
      obtain ⟨hsettled, hall⟩ := ih _ _ (h.stored hround) hrun
      refine ⟨hsettled, fun name hname => hall name ?_⟩
      -- The name on top of the stack is the one that is found now.
      by_cases hne : name = current
      · subst hne
        exact .inl (by simp [Entries.has])
      · have hput : (locals.put current value).has name = locals.has name := by
          rw [Entries.has, Entries.has, Entries.get?_put_of_ne _ _ hne]
        simpa [hput, hne] using hname
    · rename_i dependency hround
      obtain ⟨hsettled, hall⟩ := ih _ _ (h.waiting hplain hround) hrun
      refine ⟨hsettled, fun name hname => hall name ?_⟩
      rcases hname with hhas | hstack | hpending
      · exact .inl hhas
      · exact .inr (.inl (List.mem_cons_of_mem _ hstack))
      · exact .inr (.inr hpending)
    · cases hrun

end Run

/-! ## Variables -/

/-- A variable has the value from outside if there is one, and else its default. -/
theorem mem_variablesOf {vars : List Variable} {overrides : Entries Value} {name : String}
    {value : Value} :
    (name, value) ∈ variablesOf vars overrides ↔
      ∃ v ∈ vars, v.name = name ∧ (overrides.get? name = some value ∨
        overrides.get? name = none ∧ v.default = some value) := by
  simp only [variablesOf, List.mem_filterMap, Option.map_eq_some_iff, Prod.mk.injEq,
    Option.or_eq_some_iff]
  constructor
  · rintro ⟨v, hv, _, hvalue, rfl, rfl⟩
    exact ⟨v, hv, rfl, hvalue⟩
  · rintro ⟨v, hv, rfl, hvalue⟩
    exact ⟨v, hv, value, hvalue, rfl, rfl⟩

/-- Variables have different names if their declarations do. -/
theorem variablesOf_keys_nodup {vars : List Variable} (h : (vars.map Variable.name).Nodup)
    (overrides : Entries Value) : (variablesOf vars overrides).keys.Nodup := by
  refine h.sublist ?_
  induction vars with
  | nil => exact .slnil
  | cons v rest ih =>
    have hrest := ih (List.nodup_cons.mp h).2
    simp only [variablesOf, List.filterMap_cons] at hrest ⊢
    cases (overrides.get? v.name).or v.default with
    | none => exact hrest.cons _
    | some value => exact hrest.cons_cons _

end Context

/-! ## Documents -/

open Context

/-- The names of attributes, and so of local values, are plain. -/
theorem Config.plainName_of_name? {s : List Char} {r : Config.Read String s.length}
    (h : Config.name? s = some r) : PlainName r.value := by
  unfold Config.name? at h
  split at h
  · cases h
  · rename_i c rest
    split at h
    · rename_i hc
      cases h
      have hname (d : Char) (hd : d ∈ c :: rest.takeWhile Config.continuesName) :
          Config.continuesName d := by
        rcases List.mem_cons.mp hd with rfl | hrest
        · simp only [Config.startsName, Bool.or_eq_true] at hc
          simp only [Config.continuesName, Char.isAlphanum, Bool.or_eq_true]
          tauto
        · exact List.mem_takeWhile_imp hrest
      simp only [PlainName, String.toList_ofList]
      exact ⟨fun hdot => absurd (hname _ hdot) (by decide),
        fun hbracket => absurd (hname _ hbracket) (by decide)⟩
    · cases h

/-- The context of a document has its variables and what its local values are resolved to. -/
theorem Document.resolveContext_eq_ok_iff {document : Document} {overrides : Entries Value}
    {context : Context} :
    document.resolveContext overrides = .ok context ↔
      context.vars = variablesOf document.vars overrides ∧
        resolveLocals document.locals context.vars (2 * document.locals.length)
          document.locals.keys [] [] = .ok context.locals := by
  simp only [resolveContext]
  constructor
  · intro h
    cases hrun : resolveLocals document.locals (variablesOf document.vars overrides)
        (2 * document.locals.length) document.locals.keys [] [] with
    | error e => rw [hrun] at h; cases h
    | ok locals =>
      rw [hrun] at h
      obtain rfl : ⟨variablesOf document.vars overrides, locals⟩ = context := Except.ok.inj h
      exact ⟨rfl, hrun⟩
  · rintro ⟨hvars, hrun⟩
    rw [← hvars, hrun]
    rfl

/-- The local values of a resolved document are settled, and every declared one is among them. -/
theorem Document.resolveContext_settled {document : Document} {overrides : Entries Value}
    {context : Context} (hplain : ∀ name ∈ document.locals.keys, PlainName name)
    (h : document.resolveContext overrides = .ok context) :
    Settled document.locals context.vars context.locals ∧
      ∀ name ∈ document.locals.keys, context.locals.has name := by
  have hstart : Consistent document.locals context.vars [] [] := ⟨.nil, List.nodup_nil, by simp⟩
  obtain ⟨-, hrun⟩ := resolveContext_eq_ok_iff.mp h
  obtain ⟨hsettled, hall⟩ := resolveLocals_settled hplain hstart hrun
  exact ⟨hsettled, fun name hname => hall name (.inr (.inr hname))⟩

/-- Every local value of a resolved document is the value of its definition, at the end and already
in the context with only the local values before it. Exactly the declared local values are there,
and the declared variables with a value from outside or a default. -/
theorem Document.resolveContext_fixedPoint {document : Document} {overrides : Entries Value}
    {context : Context} (hlocals : document.locals.keys.Nodup)
    (hvars : (document.vars.map Variable.name).Nodup)
    (hplain : ∀ name ∈ document.locals.keys, PlainName name)
    (h : document.resolveContext overrides = .ok context) :
    context.locals.keys.Perm document.locals.keys ∧
      (∀ before name value after, context.locals = before ++ (name, value) :: after →
        ∃ d, (name, d) ∈ document.locals ∧ ∀ location,
          d.evaluate ⟨context.vars, before⟩ location = .ok value ∧
          d.evaluate context location = .ok value) ∧
      context.vars.keys.Nodup ∧
      ∀ name value, (name, value) ∈ context.vars ↔
        ∃ v ∈ document.vars, v.name = name ∧ (overrides.get? name = some value ∨
          overrides.get? name = none ∧ v.default = some value) := by
  obtain ⟨hsettled, hall⟩ := resolveContext_settled hplain h
  have heq := (resolveContext_eq_ok_iff.mp h).1
  refine ⟨?_, fun before name value after hsplit => ?_, ?_, ?_⟩
  · refine (List.perm_ext_iff_of_nodup hsettled.keys_nodup hlocals).mpr fun name => ?_
    refine ⟨hsettled.defined_of_mem, fun hname => ?_⟩
    exact (Entries.has_iff_mem_keys _ _).mp (hall name hname)
  · obtain ⟨-, -, d, hd, heval⟩ := hsettled.split hsplit
    refine ⟨d, Entries.mem_of_get? hd, fun location => ⟨?_, ?_⟩⟩
    · exact Draft.evaluate_mono (fun _ _ hv => hv) _ location d heval
    · refine Draft.evaluate_mono (fun name v hv => ?_) _ location d heval
      rw [hsplit, Entries.get?_append, hv, Option.some_or]
  · rw [heq]
    exact variablesOf_keys_nodup hvars overrides
  · rw [heq]
    exact fun name value => mem_variablesOf

/-- A local value that is declared before the one it needs. -/
def Document.backward : Document :=
  { Document.empty with
    vars := [⟨"on", some (.bool true), none, none⟩]
    locals := [("b", .text "${local.a}"), ("a", .text "${var.on}")] }

/-- The first local value waits for the second one, and so both are found. -/
theorem Document.backward_resolves :
    backward.resolveContext [] =
      .ok ⟨[("on", .bool true)], [("a", .bool true), ("b", .bool true)]⟩ := by
  have missing : round backward.locals ⟨[("on", .bool true)], []⟩ "b" ["b"] =
      .waiting "a" := by cbv
  have first : round backward.locals ⟨[("on", .bool true)], []⟩ "a" ["a", "b"] =
      .stored (.bool true) := by cbv
  have second : round backward.locals ⟨[("on", .bool true)], [("a", .bool true)]⟩ "b" ["b"] =
      .stored (.bool true) := by cbv
  refine resolveContext_eq_ok_iff.mpr ⟨rfl, ?_⟩
  show resolveLocals backward.locals _ 4 ["b", "a"] [] [] = _
  rw [resolveLocals_nil]
  show resolveLocals backward.locals _ 4 ["a"] ["b"] [] = _
  rw [resolveLocals_succ, missing]
  show resolveLocals backward.locals _ 3 ["a"] ["a", "b"] [] = _
  rw [resolveLocals_succ, first]
  show resolveLocals backward.locals _ 2 ["a"] ["b"] [("a", .bool true)] = _
  rw [resolveLocals_succ, second]
  rfl

/-- The later declaration is found first, and the earlier one is its value. -/
theorem Document.backward_fixedPoint :
    ∃ d, ("b", d) ∈ backward.locals ∧ ∀ location,
      d.evaluate ⟨[("on", .bool true)], [("a", .bool true)]⟩ location = .ok (.bool true) ∧
      d.evaluate ⟨[("on", .bool true)], [("a", .bool true), ("b", .bool true)]⟩ location =
        .ok (.bool true) :=
  (resolveContext_fixedPoint (by decide) (by decide) (by decide) backward_resolves).2.1
    [("a", .bool true)] "b" (.bool true) [] rfl

end Deployment
