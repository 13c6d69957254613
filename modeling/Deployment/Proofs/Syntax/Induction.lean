import Deployment.Draft
import Deployment.Expr

/-! # Induction over values, drafts and expressions

Values, drafts and expressions are trees with lists of subtrees. The principles below have one case
for each constructor, and in it an induction hypothesis for every member of a list of subtrees, so
that a proof treats the lists by ordinary induction and needs no simultaneous statement about them.
They are the default principles of `induction`.

A condition on every node of an expression is stated with `Expr.Everywhere`.
-/

namespace Deployment

/-- Induction over a value. -/
@[elab_as_elim, induction_eliminator]
theorem Value.induct {motive : Value → Prop} (null : motive .null)
    (bool : ∀ b, motive (.bool b)) (number : ∀ n, motive (.number n))
    (text : ∀ s, motive (.text s))
    (list : ∀ items, (∀ v ∈ items, motive v) → motive (.list items))
    (map : ∀ entries, (∀ key v, (key, v) ∈ entries → motive v) → motive (.map entries))
    (v : Value) : motive v :=
  match v with
  | .null => null
  | .bool b => bool b
  | .number n => number n
  | .text s => text s
  | .list items => list items fun v _ => induct null bool number text list map v
  | .map entries => map entries fun _ v _ => induct null bool number text list map v
termination_by sizeOf v
decreasing_by
  · have := List.sizeOf_lt_of_mem ‹v ∈ items›
    simp only [Value.list.sizeOf_spec]
    omega
  · have := List.sizeOf_lt_of_mem ‹(_, v) ∈ entries›
    simp only [Value.map.sizeOf_spec, Prod.mk.sizeOf_spec] at *
    omega

/-- Induction over a draft. -/
@[elab_as_elim, induction_eliminator]
theorem Draft.induct {motive : Draft → Prop} (null : motive .null)
    (bool : ∀ b, motive (.bool b)) (number : ∀ n, motive (.number n))
    (text : ∀ template, motive (.text template))
    (list : ∀ items, (∀ d ∈ items, motive d) → motive (.list items))
    (map : ∀ entries, (∀ key d, (key, d) ∈ entries → motive d) → motive (.map entries))
    (d : Draft) : motive d :=
  match d with
  | .null => null
  | .bool b => bool b
  | .number n => number n
  | .text template => text template
  | .list items => list items fun d _ => induct null bool number text list map d
  | .map entries => map entries fun _ d _ => induct null bool number text list map d
termination_by sizeOf d
decreasing_by
  · have := List.sizeOf_lt_of_mem ‹d ∈ items›
    simp only [Draft.list.sizeOf_spec]
    omega
  · have := List.sizeOf_lt_of_mem ‹(_, d) ∈ entries›
    simp only [Draft.map.sizeOf_spec, Prod.mk.sizeOf_spec] at *
    omega

/-- Induction over an expression. -/
@[elab_as_elim, induction_eliminator]
theorem Expr.induct {motive : Expr → Prop} (literal : ∀ v, motive (.literal v))
    (template : ∀ parts, (∀ e, .interpolation e ∈ parts → motive e) → motive (.template parts))
    (reference : ∀ r, motive (.reference r))
    (list : ∀ items, (∀ e ∈ items, motive e) → motive (.list items))
    (map : ∀ entries, (∀ key e, (key, e) ∈ entries → motive key ∧ motive e) →
      motive (.map entries))
    (access : ∀ object name, motive object → motive (.attribute object name))
    (index : ∀ object key, motive object → motive key → motive (.index object key))
    (unary : ∀ op operand, motive operand → motive (.unary op operand))
    (binary : ∀ op left right, motive left → motive right → motive (.binary op left right))
    (conditional : ∀ condition yes no, motive condition → motive yes → motive no →
      motive (.conditional condition yes no))
    (call : ∀ name args, (∀ e ∈ args, motive e) → motive (.call name args))
    (e : Expr) : motive e :=
  -- Every subexpression is smaller, so the principle may be used for it.
  have sub (e' : Expr) (_ : sizeOf e' < sizeOf e) : motive e' :=
    induct literal template reference list map access index unary binary conditional call e'
  match e with
  | .literal v => literal v
  | .template parts => template parts fun e h => sub e (by
      have := List.sizeOf_lt_of_mem h
      simp only [Expr.template.sizeOf_spec, Part.interpolation.sizeOf_spec] at *
      omega)
  | .reference r => reference r
  | .list items => list items fun e h => sub e (by
      have := List.sizeOf_lt_of_mem h
      simp only [Expr.list.sizeOf_spec]
      omega)
  | .map entries => map entries fun key e h => by
      have := List.sizeOf_lt_of_mem h
      simp only [Prod.mk.sizeOf_spec] at this
      constructor <;> apply sub <;> simp only [Expr.map.sizeOf_spec] <;> omega
  | .attribute object name => access object name (sub object (by simp +arith))
  | .index object key => index object key (sub object (by simp +arith)) (sub key (by simp +arith))
  | .unary op operand => unary op operand (sub operand (by simp +arith))
  | .binary op left right =>
    binary op left right (sub left (by simp +arith)) (sub right (by simp +arith))
  | .conditional condition yes no =>
    conditional condition yes no (sub condition (by simp +arith)) (sub yes (by simp +arith))
      (sub no (by simp +arith))
  | .call name args => call name args fun e h => sub e (by
      have := List.sizeOf_lt_of_mem h
      simp only [Expr.call.sizeOf_spec]
      omega)
termination_by sizeOf e

/-! ## Subexpressions -/

namespace Expr

/-- The expressions that an expression is directly made of. -/
def children : Expr → List Expr
  | .literal _ | .reference _ => []
  | .template parts => parts.flatMap fun
    | .text _ => []
    | .interpolation e => [e]
  | .list items => items
  | .map entries => entries.flatMap fun entry => [entry.1, entry.2]
  | .attribute object _ => [object]
  | .index object key => [object, key]
  | .unary _ operand => [operand]
  | .binary _ left right => [left, right]
  | .conditional condition yes no => [condition, yes, no]
  | .call _ args => args

/-- A property of an expression and of all that it is made of. -/
inductive Everywhere (p : Expr → Prop) : Expr → Prop
  | intro {e : Expr} (here : p e) (below : ∀ child ∈ e.children, Everywhere p child) :
      Everywhere p e

/-- A property of all nodes that implies another one. -/
theorem Everywhere.mono {p q : Expr → Prop} {e : Expr} (h : e.Everywhere p)
    (hpq : ∀ e, p e → q e) : e.Everywhere q := by
  induction h with
  | intro here below ih => exact .intro (hpq _ here) ih

/-- Two properties of all nodes that imply a third one together. -/
theorem Everywhere.imp₂ {p q r : Expr → Prop} {e : Expr} (h : e.Everywhere p)
    (h' : e.Everywhere q) (hpqr : ∀ e, p e → q e → r e) : e.Everywhere r := by
  induction h with
  | intro here below ih =>
    obtain ⟨here', below'⟩ := h'
    exact .intro (hpqr _ here here') fun child hchild => ih child hchild (below' child hchild)

end Expr

end Deployment
