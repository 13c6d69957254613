import Deployment.Proofs.Context.Locals
import Deployment.Proofs.Entries
import Deployment.Proofs.Evaluation.Agreement
import Deployment.Proofs.Syntax.Lexical

/-! # What evaluation hands on

A value comes from the literals of an expression and from the values in scope: evaluation takes
parts of these, puts parts together to lists and maps, and calculates. So a property that goes down
to parts, up to the collections that are built, and through arithmetic is handed on from what goes
into an evaluation to what comes out of it (`Expr.evaluate_inherits`, `Draft.evaluate_inherits`).
`Value.Inherited` collects what is asked of the property. Every module that shows that evaluation
keeps something instantiates it.
-/

namespace Deployment

/-- A property of values that evaluation hands on. -/
structure Value.Inherited (p : Value → Prop) : Prop where
  null : p .null
  bool (b : Bool) : p (.bool b)
  text (s : String) : p (.text s)
  list {items : List Value} : p (.list items) ↔ ∀ v ∈ items, p v
  entry {entries : Entries Value} {key : String} {v : Value} :
    p (.map entries) → (key, v) ∈ entries → p v
  empty : p (.map [])
  put {entries : Entries Value} (key : String) {v : Value} :
    p (.map entries) → p v → p (.map (entries.put key v))
  integer (n : Int64) : p (.number (.integer n))
  parsed {s : String} {n : Number} : Number.parse? s = some n → p (.number n)
  arithmetic (op : ArithmeticOp) {a b : Number} : p (.number a) → p (.number b) →
    Ensures (Number.arithmetic op a b) fun n => p (.number n)
  negate {n : Number} : p (.number n) → Ensures n.negate fun m => p (.number m)

/-- The values in scope have a property. -/
structure Context.All (p : Value → Prop) (context : Context) : Prop where
  vars : ∀ name v, (name, v) ∈ context.vars → p v
  locals : ∀ name v, (name, v) ∈ context.locals → p v

variable {p : Value → Prop}

namespace Value

/-- The literals that single tokens stand for have the property. -/
theorem Atomic.inherits (hp : Inherited p) {v : Value} (h : v.Atomic) : p v := by
  cases h with
  | null => exact hp.null
  | bool b => exact hp.bool b
  | number _ h => exact hp.parsed h
  | text s => exact hp.text s

/-- A value is used as a number only if it is one, or a text that spells one. -/
theorem number?_inherits (hp : Inherited p) {v : Value} (h : p v) {n : Number}
    (hn : v.number? = some n) : p (.number n) := by
  cases v with
  | number m =>
    obtain rfl := Option.some.inj hn
    exact h
  | text s => exact hp.parsed hn
  | _ => cases hn

/-! ## Parts of values -/

/-- An attribute is an entry of its object. -/
theorem getAttribute_inherits (hp : Inherited p) {object : Value} (h : p object)
    (name written location : String) : Ensures (object.getAttribute name written location) p := by
  unfold getAttribute
  split
  · split
    · rename_i v hv
      exact .ok (hp.entry h (Entries.mem_of_get? hv))
    · exact .error _
  · exact .error _

/-- What stands at an index is an item or an entry of the object. -/
theorem getIndex_inherits (hp : Inherited p) {object : Value} (h : p object) (key : Value)
    (written location : String) : Ensures (object.getIndex key written location) p := by
  unfold getIndex
  -- Lists have items, maps have entries, and other values have neither.
  split
  · split
    · exact .error _
    · dsimp only
      split
      · rename_i v hv
        obtain ⟨-, hitem⟩ := Option.ite_none_right_eq_some.mp hv
        exact .ok (hp.list.mp h _ (List.mem_of_getElem? hitem))
      · exact .error _
  · split
    · exact .error _
    · split
      · rename_i v hv
        exact .ok (hp.entry h (Entries.mem_of_get? hv))
      · exact .error _
  · exact .error _

/-- What a path leads to is a part of a part. -/
theorem follow_inherits (hp : Inherited p) {v : Value} (h : p v) (location path : String)
    (names : List String) : Ensures (v.follow location path names) p := by
  induction names generalizing v path with
  | nil => exact .ok h
  | cons name rest ih =>
    rw [follow]
    split
    · rename_i w hw
      exact ih (getAttribute_inherits hp h _ _ _ w hw) _
    · exact .error _

end Value

namespace Context

/-- A reference stands for a value of the scope or for a part of one. -/
theorem resolve_inherits (hp : Value.Inherited p) {scope : Entries Value}
    (h : ∀ name v, (name, v) ∈ scope → p v) (r : Reference) (location : String) :
    Ensures (resolve scope r location) p := by
  unfold resolve
  split
  · exact .error _
  · dsimp only
    split
    · rename_i v hv
      exact Value.follow_inherits hp (h _ v (Entries.mem_of_get? hv)) _ _ _
    · exact .error _

/-- References that have a value stand for variables and local values. -/
theorem lookup_inherits (hp : Value.Inherited p) {context : Context} (h : context.All p)
    (r : Reference) (location : String) : Ensures (context.lookup r location) p := by
  unfold lookup
  split
  · exact resolve_inherits hp h.vars r location
  · exact resolve_inherits hp h.locals r location
  all_goals try exact .error _
  split <;> exact .error _

end Context

/-! ## Functions -/

namespace Function

/-- A length is an integer. -/
theorem callLength_inherits (hp : Value.Inherited p) (args : List Value) :
    Ensures (callLength args) p := by
  have hlength (n : Nat) : Ensures (lengthValue n) p := by
    unfold lengthValue
    split
    · rename_i v hv
      obtain ⟨m, hm, rfl⟩ := Option.map_eq_some_iff.mp hv
      obtain ⟨-, hinteger⟩ := Option.ite_none_right_eq_some.mp hm
      obtain rfl := Option.some.inj hinteger
      exact .ok (hp.integer _)
    · exact .error _
  unfold callLength
  split
  · exact hlength _
  · exact hlength _
  · exact hlength _
  · exact .error _
  · exact .error _

/-- The extreme number is one of the arguments. -/
theorem extreme_inherits (hp : Value.Inherited p) (f : Function) (wanted : Ordering)
    {best : Option Number} (hbest : ∀ n ∈ best, p (.number n)) {args : List Value}
    (h : ∀ v ∈ args, p v) : Ensures (extreme f wanted best args) p := by
  fun_induction extreme f wanted best args with
  | case1 => exact .error _
  | case2 best => exact .ok (hbest best rfl)
  | case3 => exact .error _
  | case4 arg rest n hn ih =>
    obtain ⟨harg, hrest⟩ := List.forall_mem_cons.mp h
    refine ih (fun m hm => ?_) hrest
    obtain rfl := Option.some.inj hm
    exact Value.number?_inherits hp harg hn
  | case5 arg rest n hn current ih =>
    obtain ⟨harg, hrest⟩ := List.forall_mem_cons.mp h
    refine ih (fun m hm => ?_) hrest
    obtain rfl := Option.some.inj hm
    split
    · exact Value.number?_inherits hp harg hn
    · exact hbest current rfl

/-- The items of joined lists are items of the lists. -/
theorem callConcat_inherits (hp : Value.Inherited p) {args : List Value} (h : ∀ v ∈ args, p v) :
    Ensures (callConcat args) fun items => ∀ v ∈ items, p v := by
  induction args with
  | nil => exact .ok (by simp)
  | cons v rest ih =>
    obtain ⟨hv, hrest⟩ := List.forall_mem_cons.mp h
    cases v with
    | list items =>
      rw [callConcat]
      refine (ih hrest).map fun more hmore => ?_
      exact List.forall_mem_append.mpr ⟨hp.list.mp hv, hmore⟩
    | _ => exact .error _

/-- Functions hand on numbers and items of their arguments, and lengths. -/
theorem call_inherits (hp : Value.Inherited p) (f : Function) {args : List Value}
    (h : ∀ v ∈ args, p v) : Ensures (f.call args) p := by
  cases f with
  | length => exact callLength_inherits hp args
  | min => exact extreme_inherits hp _ _ (by simp) h
  | max => exact extreme_inherits hp _ _ (by simp) h
  | concat => exact (callConcat_inherits hp h).map fun _ hitems => hp.list.mpr hitems

end Function

/-! ## Expressions -/

namespace Expr

variable {context : Context} {location : String}

/-- A literal has a property. Nothing is asked of other nodes. -/
def LiteralHas (p : Value → Prop) : Expr → Prop
  | .literal v => p v
  | _ => True

/-- The literals of what was read are single tokens. -/
theorem Built.literalHas (hp : Value.Inherited p) {e : Expr} (h : e.Built) : e.LiteralHas p := by
  cases e using induct with
  | literal v => exact Value.Atomic.inherits hp h
  | _ => trivial

/-- The opposite of a number is left to the property itself. -/
theorem applyNegation_inherits (hp : Value.Inherited p) {v : Value} (h : p v)
    (written location : String) : Ensures (applyNegation v written location) p := by
  unfold applyNegation
  split
  · exact .error _
  · rename_i n hn
    split
    · rename_i m hm
      exact .ok (hp.negate (Value.number?_inherits hp h hn) m hm)
    · exact .error _

/-- An operand is the number that its value is or spells. -/
theorem asOperand_inherits (hp : Value.Inherited p) {v : Value} (h : p v) (op : BinaryOp)
    (written location : String) :
    Ensures (v.asOperand op written location) fun n => p (.number n) := by
  unfold Value.asOperand
  split
  · rename_i n hn
    exact .ok (Value.number?_inherits hp h hn)
  · exact .error _

/-- Results of arithmetic are left to the property itself. -/
theorem applyArithmetic_inherits (hp : Value.Inherited p) (op : ArithmeticOp) {a b : Value}
    (ha : p a) (hb : p b) (written location : String) :
    Ensures (applyArithmetic op a b written location) p := by
  unfold applyArithmetic
  refine .bind (asOperand_inherits hp ha _ _ _) fun x hx => ?_
  refine .bind (asOperand_inherits hp hb _ _ _) fun y hy => ?_
  split
  · rename_i n hn
    exact .ok (hp.arithmetic op hx hy n hn)
  · exact .error _

/-- Items of a list have the property if the expressions hand it on. -/
theorem evaluateItems_inherits {items : List Expr}
    (h : ∀ e ∈ items, Ensures (evaluate context location e) p) :
    Ensures (evaluateItems context location items) fun vs => ∀ v ∈ vs, p v := by
  induction items with
  | nil =>
    rw [evaluateItems]
    exact .ok (by simp)
  | cons e rest ih =>
    rw [evaluateItems]
    refine .bind (h e List.mem_cons_self) fun v hv => ?_
    refine .bind (ih fun e he => h e (List.mem_cons_of_mem _ he)) fun vs hvs => ?_
    exact .ok (List.forall_mem_cons.mpr ⟨hv, hvs⟩)

/-- Entries are put one by one into those before them, and the property goes along. -/
theorem evaluateEntries_inherits (hp : Value.Inherited p) {entries : List (Expr × Expr)}
    (h : ∀ key e, (key, e) ∈ entries → Ensures (evaluate context location e) p)
    {seen : Entries Value} (hseen : p (.map seen)) :
    Ensures (evaluateEntries context location seen entries) fun vs => p (.map vs) := by
  induction entries generalizing seen with
  | nil =>
    rw [evaluateEntries]
    exact .ok hseen
  | cons entry rest ih =>
    obtain ⟨key, e⟩ := entry
    rw [evaluateEntries]
    refine .after fun k => .after fun k => ?_
    split
    · exact .error _
    · refine .bind (h key e List.mem_cons_self) fun v hv => ?_
      exact ih (fun key e hmem => h key e (List.mem_cons_of_mem _ hmem)) (hp.put k hseen hv)

/-- A template is text, or it has the value of the one expression in it. -/
theorem evaluate_template_inherits (hp : Value.Inherited p) {parts : Template}
    (h : ∀ e, .interpolation e ∈ parts → Ensures (evaluate context location e) p) :
    Ensures (evaluate context location (.template parts)) p := by
  cases hs : Template.single? parts with
  | some e =>
    obtain rfl := Template.eq_of_single? hs
    rw [evaluate]
    exact h e (by simp)
  | none =>
    rw [evaluate_template _ _ hs]
    exact .after fun s => .ok (hp.text s)

/-- The value of an expression has what its literals and the values in scope have. -/
theorem evaluate_inherits (hp : Value.Inherited p) {e : Expr} (hcontext : context.All p)
    (h : e.Everywhere (LiteralHas p)) : Ensures (evaluate context location e) p := by
  induction e with
  -- By induction on the expression. Literals and references are where values come from, and
  -- arithmetic is where new numbers arise.
  | literal v =>
    obtain ⟨here, -⟩ := h
    rw [evaluate]
    exact .ok here
  | template parts ih =>
    obtain ⟨-, below⟩ := h
    exact evaluate_template_inherits hp fun e he =>
      ih e he (below e (List.mem_flatMap.mpr ⟨_, he, by simp⟩))
  | reference r =>
    rw [evaluate]
    exact Context.lookup_inherits hp hcontext r location
  | list items ih =>
    obtain ⟨-, below⟩ := h
    rw [evaluate]
    refine .bind (evaluateItems_inherits fun e he => ih e he (below e he)) fun vs hvs => ?_
    exact .ok (hp.list.mpr hvs)
  | map entries ih =>
    obtain ⟨-, below⟩ := h
    have hentries (key e : Expr) (hmem : (key, e) ∈ entries) :
        Ensures (evaluate context location e) p := by
      apply (ih key e hmem).2
      apply below
      exact List.mem_flatMap.mpr ⟨(key, e), hmem, by simp⟩
    rw [evaluate]
    refine .bind (evaluateEntries_inherits hp hentries hp.empty) fun vs hvs => ?_
    exact .ok hvs
  | access object name ih =>
    obtain ⟨-, below⟩ := h
    rw [evaluate]
    refine .bind (ih (below object (by simp [children]))) fun v hv => ?_
    exact Value.getAttribute_inherits hp hv _ _ _
  | index object key ih ihk =>
    obtain ⟨-, below⟩ := h
    rw [evaluate]
    refine .bind (ih (below object (by simp [children]))) fun v hv => .after fun k => ?_
    exact Value.getIndex_inherits hp hv _ _ _
  | unary op operand ih =>
    obtain ⟨-, below⟩ := h
    cases op with
    | not =>
      rw [evaluate]
      exact .after fun v => .after fun b => .ok (hp.bool _)
    | neg =>
      rw [evaluate]
      refine .bind (ih (below operand (by simp [children]))) fun v hv => ?_
      exact applyNegation_inherits hp hv _ _
  | binary op left right ihl ihr =>
    obtain ⟨-, below⟩ := h
    -- Of the operators on two operands, only the arithmetic ones result in more than a truth value.
    cases op with
    | or =>
      rw [evaluate]
      refine .after fun v => .after fun b => ?_
      split
      · exact .ok (hp.bool _)
      · exact .after fun w => .after fun b => .ok (hp.bool b)
    | and =>
      rw [evaluate]
      refine .after fun v => .after fun b => ?_
      split
      · exact .after fun w => .after fun b => .ok (hp.bool b)
      · exact .ok (hp.bool _)
    | equal =>
      rw [evaluate]
      exact .after fun a => .after fun b => .ok (hp.bool _)
    | notEqual =>
      rw [evaluate]
      exact .after fun a => .after fun b => .ok (hp.bool _)
    | order op =>
      rw [evaluate]
      refine .after fun a => .after fun b => ?_
      unfold applyOrder
      exact .after fun x => .after fun y => .ok (hp.bool _)
    | arithmetic op =>
      rw [evaluate]
      refine .bind (ihl (below left (by simp [children]))) fun a ha => ?_
      refine .bind (ihr (below right (by simp [children]))) fun b hb => ?_
      exact applyArithmetic_inherits hp op ha hb _ _
  | conditional condition yes no ih ihy ihn =>
    obtain ⟨-, below⟩ := h
    rw [evaluate]
    refine .after fun v => .after fun b => ?_
    split
    · exact ihy (below yes (by simp [children]))
    · exact ihn (below no (by simp [children]))
  | call name args ih =>
    obtain ⟨-, below⟩ := h
    rw [evaluate]
    split
    · exact .error _
    · refine .bind (evaluateItems_inherits fun e he => ih e he (below e he)) fun vs hvs => ?_
      unfold applyCall
      split
      · rename_i v hv
        exact .ok (Function.call_inherits hp _ hvs v hv)
      · exact .error _

end Expr

/-! ## Drafts -/

/-- The expressions in text that was read have the literals of single tokens. -/
theorem Template.literalHas_of_parse (hp : Value.Inherited p) {text : String} {parts : Template}
    (h : parse text false = .ok parts) : (Expr.template parts).Everywhere (Expr.LiteralHas p) := by
  obtain ⟨-, hbuilt, -⟩ := Expr.parseTemplate_built false 0 "" text.toList parts h
  refine .intro trivial fun child hchild => ?_
  obtain ⟨part, hpart, hchild⟩ := List.mem_flatMap.mp hchild
  cases part with
  | text t => cases hchild
  | interpolation e =>
    obtain rfl := List.mem_singleton.mp hchild
    exact (hbuilt _ hpart).mono fun _ hnode => hnode.literalHas hp

/-- The value of a text as a template has the property if the values in scope have it. -/
theorem Template.evaluateText_inherits (hp : Value.Inherited p) {context : Context}
    (hcontext : context.All p) (location text : String) :
    Ensures (evaluateText context location text) p := by
  unfold evaluateText
  split
  · rename_i parts hparts
    exact Expr.evaluate_inherits hp hcontext (literalHas_of_parse hp hparts)
  · exact .error _

namespace Draft

variable {context : Context}

/-- All numbers in the draft, at any depth, have a property. -/
inductive Numbers (q : Number → Prop) : Draft → Prop
  | null : Numbers q .null
  | bool (b : Bool) : Numbers q (.bool b)
  | number {n : Number} (h : q n) : Numbers q (.number n)
  | text (template : String) : Numbers q (.text template)
  | list {items : List Draft} (h : ∀ d ∈ items, Numbers q d) : Numbers q (.list items)
  | map {entries : List (String × Draft)} (h : ∀ key d, (key, d) ∈ entries → Numbers q d) :
      Numbers q (.map entries)

/-- Numbers with a property have every weaker one. -/
theorem Numbers.mono {q q' : Number → Prop} {d : Draft} (h : d.Numbers q) (hq : ∀ n, q n → q' n) :
    d.Numbers q' := by
  induction h with
  | null => exact .null
  | bool b => exact .bool b
  | number h => exact .number (hq _ h)
  | text template => exact .text template
  | list _ ih => exact .list ih
  | map _ ih => exact .map ih

/-- A property of all numbers is one of those in any draft. -/
theorem numbers_of_forall {q : Number → Prop} (h : ∀ n, q n) (d : Draft) : d.Numbers q := by
  induction d with
  | null => exact .null
  | bool b => exact .bool b
  | number n => exact .number (h n)
  | text template => exact .text template
  | list items ih => exact .list ih
  | map entries ih => exact .map ih

/-- Items of a list draft have the property if the drafts hand it on, wherever they stand. -/
theorem evaluateItems_inherits {items : List Draft}
    (h : ∀ d ∈ items, ∀ location, Ensures (evaluate context location d) p)
    (location : String) (i : Nat) :
    Ensures (evaluateItems context location i items) fun vs => ∀ v ∈ vs, p v := by
  induction items generalizing i with
  | nil => exact .ok (by simp)
  | cons d rest ih =>
    rw [evaluateItems]
    refine .bind (h d List.mem_cons_self _) fun v hv => ?_
    refine .bind (ih (fun d hd => h d (List.mem_cons_of_mem _ hd)) _) fun vs hvs => ?_
    exact .ok (List.forall_mem_cons.mpr ⟨hv, hvs⟩)

/-- Entries of a map draft are put one by one, as in an expression. -/
theorem evaluateEntries_inherits (hp : Value.Inherited p) {entries : List (String × Draft)}
    (h : ∀ template d, (template, d) ∈ entries →
      ∀ location, Ensures (evaluate context location d) p)
    (location : String) {seen : Entries Value} (hseen : p (.map seen)) :
    Ensures (evaluateEntries context location seen entries) fun vs => p (.map vs) := by
  induction entries generalizing seen with
  | nil => exact .ok hseen
  | cons entry rest ih =>
    obtain ⟨template, d⟩ := entry
    rw [evaluateEntries]
    refine .after fun key => ?_
    refine .bind (h template d List.mem_cons_self _) fun v hv => ?_
    split
    · exact .error _
    · apply ih
      · exact fun template d hmem => h template d (List.mem_cons_of_mem _ hmem)
      · exact hp.put key hseen hv

/-- The value of a draft has what its numbers and the values in scope have. -/
theorem evaluate_inherits (hp : Value.Inherited p) (hcontext : context.All p) {d : Draft}
    (h : d.Numbers fun n => p (.number n)) (location : String) :
    Ensures (evaluate context location d) p := by
  induction h generalizing location with
  | null => exact .ok hp.null
  | bool b => exact .ok (hp.bool b)
  | number h => exact .ok h
  | text template => exact Template.evaluateText_inherits hp hcontext location template
  | list _ ih =>
    rw [evaluate]
    refine .bind (evaluateItems_inherits ih location 0) ?_
    exact fun vs hvs => .ok (hp.list.mpr hvs)
  | map _ ih =>
    rw [evaluate]
    refine .bind (evaluateEntries_inherits hp ih location hp.empty) ?_
    exact fun vs hvs => .ok hvs

end Draft

end Deployment
