import Deployment.Proofs.Evaluation.Inheritance
import Deployment.Proofs.Number.Conversion
import Deployment.Proofs.Number.Integers

/-! # Evaluation never leaves the finite numbers

A value is `Finite` if all decimals in it, at any depth, are finite. What is read from text is, the
arithmetic of decimals checks its result, and of the operations without a check the quotient of two
integers and the negation of a decimal are finite by themselves. So finite numbers are handed on by
evaluation (`Value.Finite.inherited`), and comparing by order, which asks for finite numbers, is
never applied to others (`Expr.Compares.finite`).
-/

namespace Deployment

/-! ## Arithmetic -/

namespace Number

/-- A number made of an integer is an integer. -/
theorem isFinite_of_ofInt? {n : Int} {m : Number} (h : ofInt? n = some m) : m.IsFinite := by
  obtain ⟨-, hinteger⟩ := Option.ite_none_right_eq_some.mp h
  cases hinteger
  trivial

/-- Reading keeps only finite decimals. -/
theorem isFinite_of_parse? {s : String} {n : Number} (h : parse? s = some n) : n.IsFinite := by
  unfold parse? at h
  dsimp only at h
  -- With a minus or without, the text is an integer or a decimal that passed the filter.
  split at h
  all_goals
    split at h
    · cases h
    rcases Option.or_eq_some_iff.mp h with hinteger | ⟨-, hdecimal⟩
    · obtain ⟨-, hinteger⟩ := Option.ite_none_right_eq_some.mp hinteger
      exact isFinite_of_ofInt? hinteger
    · obtain ⟨x, hx, rfl⟩ := Option.map_eq_some_iff.mp hdecimal
      obtain ⟨-, hfinite⟩ := Option.filter_eq_some_iff.mp hx
      exact hfinite

/-- An exact result is an integer. -/
theorem exact_finite (n : Int) : Ensures (exact n) IsFinite := by
  rcases exact_cases n with ⟨k, -, h⟩ | ⟨-, h⟩ <;> rw [h]
  · exact .ok trivial
  · exact .error _

/-- The only decimal that comes from two integers is their quotient. -/
theorem arithmeticInt_finite (op : ArithmeticOp) (x y : Int64) :
    Ensures (arithmeticInt op x y) IsFinite := by
  cases op with
  | add => exact exact_finite _
  | sub => exact exact_finite _
  | mul => exact exact_finite _
  | div =>
    by_cases hy : y = 0
    · rw [hy]
      exact .error _
    · rw [arithmeticInt_div hy]
      split
      · exact .ok trivial
      · exact .ok (Decimal.isFinite_div_ofInt x hy)
  | mod =>
    by_cases hy : y = 0
    · rw [hy]
      exact .error _
    · rw [arithmeticInt_mod hy]
      split
      · exact .error _
      · exact .ok trivial

/-- Arithmetic on decimals checks its result. -/
theorem arithmeticFloat_finite (op : ArithmeticOp) (x y : Float) :
    Ensures (arithmeticFloat op x y) IsFinite := by
  have hchecked (result : Float) :
      Ensures (if result.isFinite then Except.ok (decimal result)
        else .error ArithmeticError.outOfRange) IsFinite := by
    split
    · rename_i hfinite
      exact .ok hfinite
    · exact .error _
  cases op with
  | add | sub | mul => exact hchecked _
  | div | mod =>
    unfold arithmeticFloat
    dsimp only
    split
    · exact .error _
    · exact hchecked _

/-- Arithmetic on any numbers has finite results, or none. -/
theorem arithmetic_finite (op : ArithmeticOp) (a b : Number) :
    Ensures (arithmetic op a b) IsFinite := by
  unfold arithmetic
  split
  · exact arithmeticInt_finite op _ _
  · exact arithmeticFloat_finite op _ _

/-- The opposite of a finite number is finite. -/
theorem negate_finite {n : Number} (h : n.IsFinite) : Ensures n.negate IsFinite := by
  cases n with
  | integer n => exact exact_finite _
  | decimal x => exact .ok (Decimal.isFinite_neg h)

end Number

/-! ## Values -/

/-- All decimals in the value, at any depth, are finite. -/
inductive Value.Finite : Value → Prop
  | null : Finite .null
  | bool (b : Bool) : Finite (.bool b)
  | number {n : Number} (h : n.IsFinite) : Finite (.number n)
  | text (s : String) : Finite (.text s)
  | list {items : List Value} (h : ∀ v ∈ items, Finite v) : Finite (.list items)
  | map {entries : List (String × Value)} (h : ∀ key v, (key, v) ∈ entries → Finite v) :
      Finite (.map entries)

namespace Value.Finite

variable {v : Value} {items : List Value} {entries : Entries Value}

/-- A finite value that is a number is a finite number. -/
theorem isFinite {n : Number} (h : (Value.number n).Finite) : n.IsFinite := by
  cases h with
  | number h => exact h

theorem mem (h : (Value.list items).Finite) (hv : v ∈ items) : v.Finite := by
  cases h with
  | list h => exact h v hv

theorem entry {key : String} (h : (Value.map entries).Finite) (hv : (key, v) ∈ entries) :
    v.Finite := by
  cases h with
  | map h => exact h key v hv

/-- Writing a finite value keeps a map finite. -/
theorem put (h : (Value.map entries).Finite) (key : String) (hv : v.Finite) :
    (Value.map (entries.put key v)).Finite := by
  refine .map fun key' v' hmem => ?_
  rcases Entries.mem_put hmem with hold | hnew
  · exact h.entry hold
  · obtain ⟨-, rfl⟩ := Prod.mk.inj hnew
    exact hv

/-- Finite numbers are handed on. -/
theorem inherited : Inherited Value.Finite where
  null := .null
  bool := .bool
  text := .text
  list := ⟨fun h _ hv => h.mem hv, .list⟩
  entry h hv := h.entry hv
  empty := .map (by simp)
  put key _ h hv := h.put key hv
  integer n := .number trivial
  parsed h := .number (Number.isFinite_of_parse? h)
  arithmetic op _ _ _ _ := (Number.arithmetic_finite op _ _).mono fun _ h => .number h
  negate h := (Number.negate_finite h.isFinite).mono fun _ h => .number h

/-- A finite value is used as a finite number, also if it is a text that spells one. -/
theorem number? (h : v.Finite) {n : Number} (hn : v.number? = some n) : n.IsFinite :=
  (number?_inherits inherited h hn).isFinite

end Value.Finite

/-! ## Comparisons by order -/

/-- The extreme number among arguments is found by comparing `a` with `b` at some point. -/
inductive Function.Compares (wanted : Ordering) :
    Option Number → List Value → Number → Number → Prop
  | here {current n : Number} {arg : Value} {rest : List Value} (hn : arg.number? = some n) :
      Compares wanted (some current) (arg :: rest) n current
  | first {n a b : Number} {arg : Value} {rest : List Value} (hn : arg.number? = some n)
      (h : Compares wanted (some n) rest a b) : Compares wanted none (arg :: rest) a b
  | next {current n a b : Number} {arg : Value} {rest : List Value} (hn : arg.number? = some n)
      (h : Compares wanted (some (if n.compare current = wanted then n else current)) rest a b) :
      Compares wanted (some current) (arg :: rest) a b

/-- In the search for an extreme number only arguments are compared. -/
theorem Function.Compares.finite {wanted : Ordering} {best : Option Number} {args : List Value}
    {a b : Number} (h : Compares wanted best args a b) (hbest : ∀ n ∈ best, n.IsFinite)
    (hargs : ∀ v ∈ args, v.Finite) : a.IsFinite ∧ b.IsFinite := by
  induction h with
  | here hn => exact ⟨(hargs _ List.mem_cons_self).number? hn, hbest _ rfl⟩
  | first hn h ih =>
    obtain ⟨harg, hrest⟩ := List.forall_mem_cons.mp hargs
    refine ih (fun n hmem => ?_) hrest
    obtain rfl := Option.some.inj hmem
    exact harg.number? hn
  | next hn h ih =>
    obtain ⟨harg, hrest⟩ := List.forall_mem_cons.mp hargs
    refine ih (fun n hmem => ?_) hrest
    obtain rfl := Option.some.inj hmem
    split
    · exact harg.number? hn
    · exact hbest _ rfl

namespace Expr

/-- Two numbers are compared by order in the expression: as the operands of a comparison, or for the
extreme of some arguments. Parts of the expression count even if evaluation does not reach them. -/
inductive Compares (context : Context) (location : String) : Expr → Number → Number → Prop
  | order (op : OrderOp) {l r : Expr} {v w : Value} {a b : Number}
      (hl : evaluate context location l = .ok v) (ha : v.number? = some a)
      (hr : evaluate context location r = .ok w) (hb : w.number? = some b) :
      Compares context location (.binary (.order op) l r) a b
  | min {name : String} {args : List Expr} {vs : List Value} {a b : Number}
      (hname : Function.ofName? name = some .min)
      (hargs : evaluateItems context location args = .ok vs)
      (h : Function.Compares .lt none vs a b) : Compares context location (.call name args) a b
  | max {name : String} {args : List Expr} {vs : List Value} {a b : Number}
      (hname : Function.ofName? name = some .max)
      (hargs : evaluateItems context location args = .ok vs)
      (h : Function.Compares .gt none vs a b) : Compares context location (.call name args) a b
  | inside {e child : Expr} {a b : Number} (hchild : child ∈ e.children)
      (h : Compares context location child a b) : Compares context location e a b

variable {context : Context} {location : String}

/-- The decimals in the literals of the expression are finite. -/
abbrev Finite (e : Expr) : Prop :=
  e.Everywhere (LiteralHas Value.Finite)

theorem Finite.child {e child : Expr} (h : e.Finite) (hchild : child ∈ e.children) :
    child.Finite := by
  obtain ⟨-, below⟩ := h
  exact below child hchild

/-- A finite expression has a finite value, if the values in scope are. -/
theorem evaluate_finite (hcontext : context.All Value.Finite) {e : Expr} (h : e.Finite) :
    Ensures (evaluate context location e) Value.Finite :=
  evaluate_inherits Value.Finite.inherited hcontext h

/-- Whatever is compared by order in a finite expression is finite. -/
theorem Compares.finite {e : Expr} {a b : Number} (hcompares : Compares context location e a b)
    (hcontext : context.All Value.Finite) (h : e.Finite) : a.IsFinite ∧ b.IsFinite := by
  have hargs {name : String} {args : List Expr} (h : (Expr.call name args).Finite) :
      Ensures (evaluateItems context location args) fun vs => ∀ v ∈ vs, v.Finite :=
    evaluateItems_inherits fun e he => evaluate_finite hcontext (h.child he)
  -- By induction on where the comparison stands in the expression.
  induction hcompares with
  | order op hl ha hr hb =>
    have hleft := evaluate_finite hcontext (h.child (by simp [children])) _ hl
    have hright := evaluate_finite hcontext (h.child (by simp [children])) _ hr
    exact ⟨hleft.number? ha, hright.number? hb⟩
  | min _ hvs hcompares => exact hcompares.finite (by simp) (hargs h _ hvs)
  | max _ hvs hcompares => exact hcompares.finite (by simp) (hargs h _ hvs)
  | inside hchild _ ih => exact ih (h.child hchild)

end Expr

/-! ## Everything that is evaluated in a context -/

/-- Finite numbers are never left in the context: what is evaluated has finite values, and what is
compared by order is finite. -/
structure Context.StaysFinite (context : Context) : Prop where
  expression (location : String) (e : Expr) : e.Finite →
    ∀ v, e.evaluate context location = .ok v → v.Finite
  draft (location : String) (d : Draft) : d.Numbers Number.IsFinite →
    ∀ v, d.evaluate context location = .ok v → v.Finite
  compared (location : String) (e : Expr) : e.Finite →
    ∀ a b, e.Compares context location a b → a.IsFinite ∧ b.IsFinite
  /-- All comparisons that the evaluation of a draft makes are in the templates of its texts. -/
  comparedInText (location text : String) (parts : Template) :
    Template.parse text false = .ok parts →
      ∀ a b, (Expr.template parts).Compares context location a b → a.IsFinite ∧ b.IsFinite

namespace Context

/-- If the decimals in scope are finite, then so is everything that evaluation comes to. -/
theorem staysFinite {context : Context} (h : context.All Value.Finite) : context.StaysFinite where
  expression _ _ he := Expr.evaluate_finite h he
  draft location _ hd :=
    Draft.evaluate_inherits Value.Finite.inherited h (hd.mono fun _ hn => .number hn) location
  compared _ _ he _ _ hcompares := hcompares.finite h he
  comparedInText _ _ _ hparts _ _ hcompares :=
    hcompares.finite h (Template.literalHas_of_parse Value.Finite.inherited hparts)

/-- A half in scope, inside a list. -/
theorem staysFinite_half : StaysFinite ⟨[("a", .list [.number (.decimal 0.5)])], []⟩ := by
  have hhalf : Float.isFinite 0.5 = true := by decide +kernel
  refine staysFinite ⟨?_, by simp⟩
  intro name v hmem
  obtain ⟨-, rfl⟩ := Prod.mk.inj (List.mem_singleton.mp hmem)
  refine .list fun v hv => ?_
  obtain rfl := List.mem_singleton.mp hv
  exact .number hhalf

end Context

end Deployment
