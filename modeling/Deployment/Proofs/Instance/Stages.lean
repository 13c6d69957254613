import Deployment.Plan
import Deployment.Proofs.Partwise

/-! # The stages from resources to instances

Every stage takes the complete list that the stage before it returns: the gate leaves resources out
and resolves the attributes of the others, the first expansion numbers instances, and the second one
keys those that have no number. Each of them goes through its list, so they are partwise, and what
becomes of a resource in all of them is up to that resource (`Plan.instances_partwise`).
-/

namespace Deployment

variable {context : Context} {limit : Nat}

/-! ## The gate -/

namespace Resource

/-- What the gate lets through of one resource. -/
def gated (context : Context) (r : Resource) : Except Failure (List Resource) := do
  if ← exists? context r then
    let resolved ← resolveBranches context r
    .ok [resolved]
  else .ok []

/-- The gate goes through resources one by one. -/
theorem resolveAll_cons (r : Resource) (rest : List Resource) :
    resolveAll context (r :: rest) = (do
      let block ← gated context r
      let others ← resolveAll context rest
      .ok (block ++ others)) := by
  rw [resolveAll, gated]
  cases exists? context r with
  | error e => rfl
  | ok exists? =>
    cases exists? with
    | true => cases resolveBranches context r <;> rfl
    | false =>
      show resolveAll context rest = resolveAll context rest >>= fun others => .ok others
      cases resolveAll context rest <;> rfl

/-- What it lets through of resources is what it lets through of each of them. -/
theorem resolveAll_partwise (context : Context) : Partwise (resolveAll context) :=
  .of_cons _ rfl resolveAll_cons

end Resource

/-! ## The expansions -/

namespace Instance

theorem expandCounts_partwise (context : Context) (limit : Nat) :
    Partwise (expandCounts context limit) :=
  .of_cons (expandCount context limit) rfl fun r rest => by rw [expandCounts]

/-- The instances that an instance stands for, itself if it has a key. -/
def expansion (context : Context) (limit : Nat) (i : Instance) : Except Failure (List Instance) :=
  if i.key.isNone then expandForEach context limit i else .ok [i]

/-- Instances with a key are handed on, the others are expanded where they stand. -/
theorem expandForEachs_cons (i : Instance) (rest : List Instance) :
    expandForEachs context limit (i :: rest) =
      (do
        let block ← expansion context limit i
        let others ← expandForEachs context limit rest
        .ok (block ++ others)) := by
  rw [expandForEachs, expansion]
  split <;> rfl

theorem expandForEachs_partwise (context : Context) (limit : Nat) :
    Partwise (expandForEachs context limit) :=
  .of_cons _ rfl expandForEachs_cons

end Instance

/-! ## All stages -/

/-- The document with a single one of its resources. -/
def Document.only (document : Document) (r : Resource) : Document :=
  { document with resources := [r] }

/-- What becomes of the resources of a document is the same in whatever parts they are taken. -/
theorem Plan.instances_partwise (settings : Settings) (context : Context) (document : Document) :
    Partwise fun resources => instances settings context { document with resources } :=
  (Resource.resolveAll_partwise context).comp
    ((Instance.expandCounts_partwise context _).comp (Instance.expandForEachs_partwise context _))

end Deployment
