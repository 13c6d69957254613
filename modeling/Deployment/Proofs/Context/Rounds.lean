import Deployment.Proofs.Context.Order

/-! # The rounds of the resolution

`resolveLocals` is given a number of rounds, and one that runs out of them fails. `Resolves` is the
same walk with no bound: it counts its rounds, and each of them ends the run or makes progress. The
run exists and takes at most two rounds for every local value (`Underway.resolves`), because every
name enters the stack once and leaves it once, with its value. So the bound is never met: with the
rounds that the run takes, or with more, `resolveLocals` gives its result
(`Resolves.resolveLocals_eq`).

That a name that is waited for has no value yet is what `Consistent.waiting` says. Everything else
is counting: `2 * locals.length + stack.length` grows with every round.
-/

namespace Deployment

namespace Context

variable {definitions : Entries Draft} {vars : Entries Value}

/-! ## Runs without a bound -/

/-- A run of the walk and the number of its rounds. A round that goes on finds a value that was
missing, or puts a declared name on the stack that has no value and is not there yet. -/
inductive Resolves (definitions : Entries Draft) (vars : Entries Value) :
    Nat → List String → List String → Entries Value → Except Failure (Entries Value) → Prop
  | done {pending : List String} {locals : Entries Value}
      (found : pending.dropWhile locals.has = []) :
      Resolves definitions vars 0 pending [] locals (.ok locals)
  | next {rounds : Nat} {pending rest : List String} {name : String} {locals : Entries Value}
      {result : Except Failure (Entries Value)}
      (skipped : pending.dropWhile locals.has = name :: rest)
      (run : Resolves definitions vars rounds rest [name] locals result) :
      Resolves definitions vars rounds pending [] locals result
  | stored {rounds : Nat} {pending below : List String} {current : String}
      {locals : Entries Value} {value : Value} {result : Except Failure (Entries Value)}
      (outcome : round definitions ⟨vars, locals⟩ current (current :: below) = .stored value)
      (missing : locals.get? current = none)
      (run : Resolves definitions vars rounds pending below (locals.put current value) result) :
      Resolves definitions vars (rounds + 1) pending (current :: below) locals result
  | waiting {rounds : Nat} {pending below : List String} {current dependency : String}
      {locals : Entries Value} {result : Except Failure (Entries Value)}
      (outcome : round definitions ⟨vars, locals⟩ current (current :: below) = .waiting dependency)
      (declared : definitions.has dependency) (missing : locals.get? dependency = none)
      (fresh : dependency ∉ current :: below)
      (run : Resolves definitions vars rounds pending (dependency :: current :: below) locals
        result) :
      Resolves definitions vars (rounds + 1) pending (current :: below) locals result
  | failed {pending below : List String} {current : String} {locals : Entries Value}
      {failure : Failure}
      (outcome : round definitions ⟨vars, locals⟩ current (current :: below) = .failed failure) :
      Resolves definitions vars 1 pending (current :: below) locals (.error failure)

/-- A bound that the run keeps does not show in its result. -/
theorem Resolves.resolveLocals_eq {rounds : Nat} {pending stack : List String}
    {locals : Entries Value} {result : Except Failure (Entries Value)}
    (h : Resolves definitions vars rounds pending stack locals result) {bound : Nat}
    (hbound : rounds ≤ bound) :
    resolveLocals definitions vars bound pending stack locals = result := by
  induction h generalizing bound with
  | done found => rw [resolveLocals_nil, found]
  | next skipped _ ih =>
    rw [resolveLocals_nil, skipped]
    exact ih hbound
  | stored outcome _ _ ih =>
    obtain ⟨bound, rfl⟩ := Nat.exists_eq_add_one.mpr (Nat.zero_lt_of_lt hbound)
    rw [resolveLocals_succ, outcome]
    exact ih (Nat.le_of_succ_le_succ hbound)
  | waiting outcome _ _ _ _ ih =>
    obtain ⟨bound, rfl⟩ := Nat.exists_eq_add_one.mpr (Nat.zero_lt_of_lt hbound)
    rw [resolveLocals_succ, outcome]
    exact ih (Nat.le_of_succ_le_succ hbound)
  | failed outcome =>
    obtain ⟨bound, rfl⟩ := Nat.exists_eq_add_one.mpr (Nat.zero_lt_of_lt hbound)
    rw [resolveLocals_succ, outcome]

/-! ## Declared names -/

/-- A consistent state of the walk in which only declared names are left to do. -/
structure Underway (definitions : Entries Draft) (vars : Entries Value)
    (pending stack : List String) (locals : Entries Value) : Prop where
  consistent : Consistent definitions vars stack locals
  pendingDeclared : ∀ name ∈ pending, definitions.has name
  stackDeclared : ∀ name ∈ stack, definitions.has name

namespace Underway

variable {pending rest stack below : List String} {locals : Entries Value}
  {name current dependency : String}

/-- At the start all declared names are pending. -/
theorem start : Underway definitions vars definitions.keys [] [] where
  consistent := ⟨.nil, List.nodup_nil, by simp⟩
  pendingDeclared _ := (Entries.has_iff_mem_keys _ _).mpr
  stackDeclared := by simp

/-- Taking up a pending name keeps the walk among declared names. -/
theorem next (h : Underway definitions vars pending [] locals)
    (hskipped : pending.dropWhile locals.has = name :: rest) :
    Underway definitions vars rest [name] locals := by
  have hrest : ∀ other ∈ name :: rest, definitions.has other := fun other hother =>
    h.pendingDeclared other ((List.dropWhile_suffix locals.has).subset (hskipped ▸ hother))
  obtain ⟨hname, hrest⟩ := List.forall_mem_cons.mp hrest
  exact ⟨h.consistent.next (get?_eq_none_of_dropWhile hskipped), hrest, by simpa using hname⟩

/-- A round that finds a value leaves fewer names to do. -/
theorem stored (h : Underway definitions vars pending (current :: below) locals) {value : Value}
    (hround : round definitions ⟨vars, locals⟩ current (current :: below) = .stored value) :
    Underway definitions vars pending below (locals.put current value) :=
  ⟨h.consistent.stored hround, h.pendingDeclared, (List.forall_mem_cons.mp h.stackDeclared).2⟩

/-- A round that waits puts another declared name on the stack. -/
theorem waiting (hplain : ∀ name ∈ definitions.keys, PlainName name)
    (h : Underway definitions vars pending stack locals)
    (hround : round definitions ⟨vars, locals⟩ current stack = .waiting dependency) :
    Underway definitions vars pending (dependency :: stack) locals :=
  ⟨h.consistent.waiting hplain hround, h.pendingDeclared,
    List.forall_mem_cons.mpr ⟨(round_eq_waiting_iff.mp hround).2.1, h.stackDeclared⟩⟩

/-- The walk ends. What is known and what is on the stack counts for the rounds that it took so
far, and the rest of the bound is enough for what is left. -/
theorem resolves (hplain : ∀ name ∈ definitions.keys, PlainName name) {bound : Nat}
    (h : Underway definitions vars pending stack locals)
    (hbound : 2 * definitions.length ≤ bound + (2 * locals.length + stack.length)) :
    ∃ rounds ≤ bound, ∃ result,
      Resolves definitions vars rounds pending stack locals result := by
  -- By induction on the bound. A value that is found counts twice and leaves the stack, a name that
  -- is put there counts once.
  induction bound, pending, stack, locals using resolveLocals_induction with
  | done bound pending locals hfound => exact ⟨0, Nat.zero_le _, .ok locals, .done hfound⟩
  | next bound pending locals name rest hskipped ih =>
    have hlength : 2 * definitions.length ≤ bound + (2 * locals.length + [name].length) :=
      hbound.trans (by simp only [List.length_nil, List.length_singleton]; omega)
    obtain ⟨rounds, hrounds, result, hrun⟩ := ih (h.next hskipped) hlength
    exact ⟨rounds, hrounds, result, .next hskipped hrun⟩
  | spent pending current below locals =>
    -- Each declared name is known or on the stack at most once, so the bound is not used up.
    have hroom := h.consistent.length_le h.stackDeclared
    simp only [List.length_cons] at hroom hbound
    omega
  | round bound pending current below locals ih =>
    cases hround : round definitions ⟨vars, locals⟩ current (current :: below) with
    | stored value =>
      have hmissing := h.consistent.missing current (by simp)
      have hlength : 2 * definitions.length ≤
          bound + (2 * (locals.put current value).length + below.length) := by
        rw [Entries.put_eq_append hmissing]
        simp only [List.length_cons, List.length_append, List.length_nil] at hbound ⊢
        omega
      obtain ⟨rounds, hrounds, result, hrun⟩ := ih _ _ (h.stored hround) hlength
      exact ⟨rounds + 1, Nat.succ_le_succ hrounds, result, .stored hround hmissing hrun⟩
    | waiting dependency =>
      have hwaiting := h.waiting hplain hround
      have hlength : 2 * definitions.length ≤
          bound + (2 * locals.length + (dependency :: current :: below).length) := by
        simp only [List.length_cons] at hbound ⊢
        omega
      obtain ⟨rounds, hrounds, result, hrun⟩ := ih _ _ hwaiting hlength
      obtain ⟨hdeclared, -⟩ := List.forall_mem_cons.mp hwaiting.stackDeclared
      obtain ⟨hmissing, -⟩ := List.forall_mem_cons.mp hwaiting.consistent.missing
      obtain ⟨hfresh, -⟩ := List.nodup_cons.mp hwaiting.consistent.nodup
      exact ⟨rounds + 1, Nat.succ_le_succ hrounds, result,
        .waiting hround hdeclared hmissing hfresh hrun⟩
    | failed failure =>
      exact ⟨1, Nat.succ_le_succ (Nat.zero_le _), .error failure, .failed hround⟩

end Underway

end Context

/-! ## Documents -/

open Context

/-- The local values of a document have a run without a bound, of at most two rounds each. -/
theorem Document.exists_resolves {document : Document} (overrides : Entries Value)
    (hplain : ∀ name ∈ document.locals.keys, PlainName name) :
    ∃ rounds ≤ 2 * document.locals.length, ∃ result,
      Resolves document.locals (variablesOf document.vars overrides) rounds document.locals.keys
        [] [] result :=
  Underway.start.resolves hplain (Nat.le_add_right _ _)

/-- The local values of a document are resolved in at most two rounds for each of them. The run has
no bound, and its result, values or a failure, is what any bound that is not smaller gives, and
what the context of the document is made from. -/
theorem Document.resolveContext_rounds (document : Document) (overrides : Entries Value)
    (hplain : ∀ name ∈ document.locals.keys, PlainName name) :
    ∃ rounds ≤ 2 * document.locals.length, ∃ result,
      Resolves document.locals (variablesOf document.vars overrides) rounds document.locals.keys
          [] [] result ∧
        (∀ bound, rounds ≤ bound → resolveLocals document.locals
          (variablesOf document.vars overrides) bound document.locals.keys [] [] = result) ∧
        document.resolveContext overrides =
          result.map fun locals => ⟨variablesOf document.vars overrides, locals⟩ := by
  obtain ⟨rounds, hrounds, result, hrun⟩ := exists_resolves overrides hplain
  refine ⟨rounds, hrounds, result, hrun, fun bound => hrun.resolveLocals_eq, ?_⟩
  rw [resolveContext, hrun.resolveLocals_eq hrounds]
  cases result <;> rfl

/-- The two local values of `Document.backward` take at most four rounds. -/
theorem Document.backward_rounds :
    ∃ rounds ≤ 4, ∃ result,
      Resolves backward.locals [("on", .bool true)] rounds ["b", "a"] [] [] result := by
  obtain ⟨rounds, hrounds, result, hrun, -⟩ := resolveContext_rounds backward [] (by decide)
  exact ⟨rounds, hrounds, result, hrun⟩

end Deployment
