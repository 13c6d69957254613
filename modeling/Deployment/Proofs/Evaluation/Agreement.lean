import Deployment.Draft.Evaluation
import Deployment.Proofs.Syntax.Induction
import Mathlib.Data.List.Forall2

/-! # What an evaluation yields, apart from the wording of its failures

A failure names the expression at fault and the place where it stands; a value depends on neither.
Two evaluations *agree* if they give the same value or both fail. `Except.toOption` forgets the
failure, and through it the evaluator is compositional: the equations below say what an expression
yields in terms of what its parts yield, without any mention of locations. `evaluate_agree` and
`Draft.evaluate_agree` conclude that a location never influences a value.
-/

namespace Deployment

/-- Two evaluations agree if they give the same value or both fail. -/
def Agree {α : Type} (r s : Except Failure α) : Prop :=
  r.toOption = s.toOption

namespace Agree

variable {α β : Type} {r s t : Except Failure α}

theorem refl (r : Except Failure α) : Agree r r := rfl

theorem symm (h : Agree r s) : Agree s r := Eq.symm h

theorem trans (h : Agree r s) (h' : Agree s t) : Agree r t := Eq.trans h h'

/-- Evaluations agree exactly if they are the same value or two failures. -/
theorem iff : Agree r s ↔ (∃ v, r = .ok v ∧ s = .ok v) ∨ (∃ e f, r = .error e ∧ s = .error f) := by
  cases r <;> cases s <;> simp [Agree, Except.toOption, eq_comm]

/-- What agrees with a success is a success with the same value. -/
theorem ok_left {v : α} (h : Agree r s) (hr : r = .ok v) : s = .ok v := by
  subst hr
  cases s with
  | ok w => simpa [Agree, Except.toOption, eq_comm] using h
  | error e => simp [Agree, Except.toOption] at h

end Agree

/-- Forgetting the failure commutes with sequencing. All equations of this module come down to it.
-/
theorem Except.toOption_bind {ε α β : Type} (r : Except ε α) (f : α → Except ε β) :
    (r >>= f).toOption = r.toOption.bind fun v => (f v).toOption := by
  cases r <;> rfl

theorem Except.toOption_eq_some {ε α : Type} {r : Except ε α} {v : α} :
    r.toOption = some v ↔ r = .ok v := by
  cases r <;> simp [Except.toOption]

theorem Except.toOption_eq_none {ε α : Type} {r : Except ε α} :
    r.toOption = none ↔ ∃ e, r = .error e := by
  cases r <;> simp [Except.toOption]

/-! ## Views and accesses of values -/

namespace Value

/-- A value can stand as a condition exactly if it is a truth value. -/
@[simp] theorem asCondition_toOption (v : Value) (written location : String) :
    (v.asCondition written location).toOption = v.bool? := by
  unfold asCondition
  split <;> simp_all [Except.toOption]

/-- A value can stand as a key exactly if it has a text. -/
@[simp] theorem asKey_toOption (v : Value) (written location : String) :
    (v.asKey written location).toOption = v.text? := by
  unfold asKey
  split <;> simp_all [Except.toOption]

/-- A value can be spliced into a template exactly if it has a text. -/
@[simp] theorem asSplice_toOption (v : Value) (written location : String) :
    (v.asSplice written location).toOption = v.text? := by
  unfold asSplice
  split <;> simp_all [Except.toOption]

/-- A value can be an operand exactly if it is a number. -/
@[simp] theorem asOperand_toOption (v : Value) (op : BinaryOp) (written location : String) :
    (v.asOperand op written location).toOption = v.number? := by
  unfold asOperand
  split <;> simp_all [Except.toOption]

/-- The value of an attribute, if there is one. -/
def attribute? (object : Value) (name : String) : Option Value :=
  (object.getAttribute name "" "").toOption

/-- The item or entry at an index, if there is one. -/
def item? (object key : Value) : Option Value :=
  (object.getIndex key "" "").toOption

@[simp] theorem getAttribute_toOption (object : Value) (name written location : String) :
    (object.getAttribute name written location).toOption = object.attribute? name := by
  cases object with
  | map entries =>
    simp only [attribute?, getAttribute]
    split <;> rfl
  | _ => rfl

@[simp] theorem getIndex_toOption (object key : Value) (written location : String) :
    (object.getIndex key written location).toOption = object.item? key := by
  cases object with
  | list items =>
    simp only [item?, getIndex]
    split
    · rfl
    · split <;> rfl
  | map entries =>
    simp only [item?, getIndex]
    split
    · rfl
    · split <;> rfl
  | _ => rfl

/-- What a path of attributes leads to depends neither on where it is followed nor on how the part
of it that failed is written. -/
theorem follow_toOption (location location' : String) (v : Value) (path path' : String)
    (names : List String) :
    (v.follow location path names).toOption = (v.follow location' path' names).toOption := by
  induction names generalizing v path path' with
  | nil => rfl
  | cons name rest ih =>
    have h := getAttribute_toOption v name (path ++ "." ++ name) location
    have h' := getAttribute_toOption v name (path' ++ "." ++ name) location'
    simp only [follow]
    cases hv : v.attribute? name with
    | none =>
      obtain ⟨e, he⟩ := Except.toOption_eq_none.mp (h.trans hv)
      obtain ⟨e', he'⟩ := Except.toOption_eq_none.mp (h'.trans hv)
      simp only [he, he', Except.toOption]
    | some w =>
      rw [Except.toOption_eq_some.mp (h.trans hv), Except.toOption_eq_some.mp (h'.trans hv)]
      exact ih w _ _

end Value

namespace Context

/-- What a reference stands for in a scope does not depend on where it stands. -/
theorem resolve_toOption (scope : Entries Value) (r : Reference) (location location' : String) :
    (resolve scope r location).toOption = (resolve scope r location').toOption := by
  unfold resolve
  split
  · rfl
  · split
    · exact Value.follow_toOption _ _ _ _ _ _
    · rfl

/-- What a reference stands for in a context does not depend on where it stands. -/
theorem lookup_agree (context : Context) (r : Reference) (location location' : String) :
    Agree (context.lookup r location) (context.lookup r location') := by
  unfold lookup
  split
  · exact resolve_toOption _ _ _ _
  · exact resolve_toOption _ _ _ _
  all_goals try rfl
  split <;> rfl

end Context

/-- Only a lone interpolation is a single one. -/
theorem Template.eq_of_single? {parts : Template} {e : Expr} (h : parts.single? = some e) :
    parts = [.interpolation e] := by
  unfold single? at h
  split at h <;> simp_all

/-! ## Operators and calls -/

namespace Expr

/-- An ordering yields something exactly for two numbers. -/
theorem applyOrder_toOption (op : OrderOp) (a b : Value) (written location : String) :
    (applyOrder op a b written location).toOption =
      a.number?.bind fun x => b.number?.map fun y => .bool (op.holds (x.compare y)) := by
  simp only [applyOrder, Except.toOption_bind, Value.asOperand_toOption]
  cases a.number? <;> cases b.number? <;> rfl

/-- Arithmetic yields something exactly for two numbers whose result is defined. -/
theorem applyArithmetic_toOption (op : ArithmeticOp) (a b : Value) (written location : String) :
    (applyArithmetic op a b written location).toOption =
      a.number?.bind fun x => b.number?.bind fun y =>
        (Number.arithmetic op x y).toOption.map .number := by
  simp only [applyArithmetic, Except.toOption_bind, Value.asOperand_toOption]
  refine congrArg _ (funext fun x => congrArg _ (funext fun y => ?_))
  cases Number.arithmetic op x y <;> rfl

/-- A negation yields something exactly for a number whose opposite exists. -/
theorem applyNegation_toOption (v : Value) (written location : String) :
    (applyNegation v written location).toOption =
      v.number?.bind fun n => n.negate.toOption.map .number := by
  unfold applyNegation
  cases v.number? with
  | none => rfl
  | some n => cases h : n.negate <;> simp [h, Except.toOption]

/-- Only the function itself decides whether a call yields something: the call adds the wording of
the failure. -/
theorem applyCall_toOption (f : Function) (args : List Value) (written location : String) :
    (applyCall f args written location).toOption = (f.call args).toOption := by
  unfold applyCall
  cases f.call args <;> rfl

/-! ## Expressions -/

section Equations

attribute [local simp] evaluate evaluateItems evaluateEntries evaluateParts

variable (context : Context) (location : String)

/-- The value of an expression, if it has one. -/
def value? (e : Expr) : Option Value :=
  (evaluate context location e).toOption

/-- The values of expressions in order, if all have one. -/
def values? (items : List Expr) : Option (List Value) :=
  (evaluateItems context location items).toOption

/-- The entries of a map constructor behind those before them, if all have values. -/
def entries? (seen : Entries Value) (entries : List (Expr × Expr)) : Option (Entries Value) :=
  (evaluateEntries context location seen entries).toOption

/-- The text of a template, if all its interpolations have a text. -/
def spliced? (parts : List (Part Expr)) : Option String :=
  (evaluateParts context location parts).toOption

@[simp] theorem value?_literal (v : Value) : value? context location (.literal v) = some v := by
  simp [value?, evaluate, Except.toOption]

/-- A template that is one interpolation keeps the value of the expression, also where it has no
text. -/
@[simp] theorem value?_single (e : Expr) :
    value? context location (.template [.interpolation e]) = value? context location e := by
  simp [value?, evaluate]

/-- Every other template is spliced together into a text. -/
theorem evaluate_template {parts : Template} (h : parts.single? = none) :
    evaluate context location (.template parts) =
      (do let s ← evaluateParts context location parts; .ok (.text s)) := by
  rw [evaluate]
  rintro e rfl
  simp [Template.single?] at h

/-- Its value is that text. -/
theorem value?_template {parts : Template} (h : parts.single? = none) :
    value? context location (.template parts) =
      (spliced? context location parts).map .text := by
  rw [value?, evaluate_template _ _ h, Except.toOption_bind, spliced?]
  cases (evaluateParts context location parts).toOption <;> rfl

/-- The value of a reference is what the context holds for it. -/
theorem value?_reference (r : Reference) :
    value? context location (.reference r) = (context.lookup r location).toOption := by
  simp [value?, evaluate]

@[simp] theorem value?_list (items : List Expr) :
    value? context location (.list items) = (values? context location items).map .list := by
  rw [value?, evaluate, Except.toOption_bind, values?]
  cases (evaluateItems context location items).toOption <;> rfl

@[simp] theorem value?_map (entries : List (Expr × Expr)) :
    value? context location (.map entries) = (entries? context location [] entries).map .map := by
  rw [value?, evaluate, Except.toOption_bind, entries?]
  cases (evaluateEntries context location [] entries).toOption <;> rfl

@[simp] theorem value?_attribute (object : Expr) (name : String) :
    value? context location (.attribute object name) =
      (value? context location object).bind (·.attribute? name) := by
  simp [value?, evaluate, Except.toOption_bind]

/-- Object and key are both evaluated before the access, the object first. -/
@[simp] theorem value?_index (object key : Expr) :
    value? context location (.index object key) =
      (value? context location object).bind fun v =>
        (value? context location key).bind v.item? := by
  simp [value?, evaluate, Except.toOption_bind]

@[simp] theorem value?_not (operand : Expr) :
    value? context location (.unary .not operand) =
      (value? context location operand).bind fun v => v.bool?.map fun b => .bool (!b) := by
  simp only [value?, evaluate, Except.toOption_bind, Value.asCondition_toOption]
  refine congrArg _ (funext fun v => ?_)
  cases v.bool? <;> rfl

@[simp] theorem value?_neg (operand : Expr) :
    value? context location (.unary .neg operand) =
      (value? context location operand).bind fun v =>
        v.number?.bind fun n => n.negate.toOption.map .number := by
  simp [value?, evaluate, Except.toOption_bind, applyNegation_toOption]

/-- The right operand counts only where the left one is true. -/
@[simp] theorem value?_and (left right : Expr) :
    value? context location (.binary .and left right) =
      ((value? context location left).bind Value.bool?).bind fun b =>
        if b then ((value? context location right).bind Value.bool?).map .bool
        else some (.bool false) := by
  simp only [value?, evaluate, Except.toOption_bind, Option.bind_assoc,
    Value.asCondition_toOption]
  refine congrArg _ (funext fun v => congrArg _ (funext fun b => ?_))
  cases b with
  | false => rfl
  | true =>
    simp only [if_true, Except.toOption_bind, Value.asCondition_toOption, Option.map_bind]
    refine congrArg _ (funext fun w => ?_)
    rw [Function.comp_apply]
    cases w.bool? <;> rfl

/-- The right operand counts only where the left one is false. -/
@[simp] theorem value?_or (left right : Expr) :
    value? context location (.binary .or left right) =
      ((value? context location left).bind Value.bool?).bind fun b =>
        if b then some (.bool true)
        else ((value? context location right).bind Value.bool?).map .bool := by
  simp only [value?, evaluate, Except.toOption_bind, Option.bind_assoc,
    Value.asCondition_toOption]
  refine congrArg _ (funext fun v => congrArg _ (funext fun b => ?_))
  cases b with
  | true => rfl
  | false =>
    simp only [Bool.false_eq_true, if_false, Except.toOption_bind, Value.asCondition_toOption,
      Option.map_bind]
    refine congrArg _ (funext fun w => ?_)
    rw [Function.comp_apply]
    cases w.bool? <;> rfl

/-- An equation holds between values of any kind, so it yields something whenever its sides do. -/
@[simp] theorem value?_equal (left right : Expr) :
    value? context location (.binary .equal left right) =
      (value? context location left).bind fun a =>
        (value? context location right).map fun b => .bool (a == b) := by
  simp only [value?, evaluate, Except.toOption_bind]
  refine congrArg _ (funext fun a => ?_)
  cases (evaluate context location right).toOption <;> rfl

@[simp] theorem value?_notEqual (left right : Expr) :
    value? context location (.binary .notEqual left right) =
      (value? context location left).bind fun a =>
        (value? context location right).map fun b => .bool (!(a == b)) := by
  simp only [value?, evaluate, Except.toOption_bind]
  refine congrArg _ (funext fun a => ?_)
  cases (evaluate context location right).toOption <;> rfl

@[simp] theorem value?_order (op : OrderOp) (left right : Expr) :
    value? context location (.binary (.order op) left right) =
      (value? context location left).bind fun a =>
        (value? context location right).bind fun b =>
          a.number?.bind fun x => b.number?.map fun y => .bool (op.holds (x.compare y)) := by
  simp only [value?, evaluate, Except.toOption_bind, applyOrder_toOption]

/-- Both operands are evaluated before either is required to be a number. -/
@[simp] theorem value?_arithmetic (op : ArithmeticOp) (left right : Expr) :
    value? context location (.binary (.arithmetic op) left right) =
      (value? context location left).bind fun a =>
        (value? context location right).bind fun b =>
          a.number?.bind fun x => b.number?.bind fun y =>
            (Number.arithmetic op x y).toOption.map .number := by
  simp only [value?, evaluate, Except.toOption_bind, applyArithmetic_toOption]

/-- Only the chosen branch is evaluated. -/
@[simp] theorem value?_conditional (condition yes no : Expr) :
    value? context location (.conditional condition yes no) =
      ((value? context location condition).bind Value.bool?).bind fun b =>
        if b then value? context location yes else value? context location no := by
  simp only [value?, evaluate, Except.toOption_bind, Option.bind_assoc,
    Value.asCondition_toOption]
  refine congrArg _ (funext fun v => congrArg _ (funext fun b => ?_))
  cases b <;> rfl

/-- An unknown function yields nothing, whatever its arguments. -/
@[simp] theorem value?_call (name : String) (args : List Expr) :
    value? context location (.call name args) =
      (Function.ofName? name).bind fun f =>
        (values? context location args).bind fun vs => (f.call vs).toOption := by
  rw [value?, evaluate]
  cases Function.ofName? name with
  | none => rfl
  | some f => simp only [Except.toOption_bind, applyCall_toOption, values?, Option.bind_some]

@[simp] theorem values?_nil : values? context location [] = some [] := by
  simp [values?, evaluateItems, Except.toOption]

@[simp] theorem values?_cons (e : Expr) (rest : List Expr) :
    values? context location (e :: rest) =
      (value? context location e).bind fun v => (values? context location rest).map (v :: ·) := by
  simp only [values?, value?, evaluateItems, Except.toOption_bind]
  refine congrArg _ (funext fun v => ?_)
  cases (evaluateItems context location rest).toOption <;> rfl

@[simp] theorem entries?_nil (seen : Entries Value) :
    entries? context location seen [] = some seen := by
  simp [entries?, evaluateEntries, Except.toOption]

/-- A map constructor with a repeated key has no value, and the repetition is noticed before the
value behind it is evaluated. -/
@[simp] theorem entries?_cons (seen : Entries Value) (key e : Expr) (rest : List (Expr × Expr)) :
    entries? context location seen ((key, e) :: rest) =
      ((value? context location key).bind Value.text?).bind fun k =>
        if seen.has k then none
        else (value? context location e).bind fun v =>
          entries? context location (seen.put k v) rest := by
  simp only [entries?, value?, evaluateEntries, Except.toOption_bind, Option.bind_assoc,
    Value.asKey_toOption]
  refine congrArg _ (funext fun v => congrArg _ (funext fun k => ?_))
  split
  · rfl
  · rw [Except.toOption_bind]

@[simp] theorem spliced?_nil : spliced? context location [] = some "" := by
  simp [spliced?, evaluateParts, Except.toOption]

@[simp] theorem spliced?_text (s : String) (rest : List (Part Expr)) :
    spliced? context location (.text s :: rest) =
      (spliced? context location rest).map (s ++ ·) := by
  rw [spliced?, evaluateParts, Except.toOption_bind, spliced?]
  cases (evaluateParts context location rest).toOption <;> rfl

/-- Only a value that has a text can be spliced. -/
@[simp] theorem spliced?_interpolation (e : Expr) (rest : List (Part Expr)) :
    spliced? context location (.interpolation e :: rest) =
      ((value? context location e).bind Value.text?).bind fun s =>
        (spliced? context location rest).map (s ++ ·) := by
  simp only [spliced?, value?, evaluateParts, Except.toOption_bind, Option.bind_assoc,
    Value.asSplice_toOption]
  refine congrArg _ (funext fun v => congrArg _ (funext fun s => ?_))
  cases (evaluateParts context location rest).toOption <;> rfl

end Equations

/-! ## Congruence

What lists of subexpressions yield depends on what the subexpressions yield, one by one.
-/

section Congruence

variable {context context' : Context} {location location' : String}

/-- Expressions of two lists that yield the same, one by one. -/
theorem values?_congr {items items' : List Expr}
    (h : List.Forall₂ (fun e e' => value? context location e = value? context' location' e')
      items items') :
    values? context location items = values? context' location' items' := by
  induction h with
  | nil => simp
  | cons he _ ih => rw [values?_cons, values?_cons, he, ih]

/-- Entries of two map constructors whose keys yield the same text and whose values yield the same,
one by one. -/
theorem entries?_congr {entries entries' : List (Expr × Expr)}
    (h : List.Forall₂ (fun p p' =>
      (value? context location p.1).bind Value.text? =
        (value? context' location' p'.1).bind Value.text? ∧
      value? context location p.2 = value? context' location' p'.2) entries entries')
    (seen : Entries Value) :
    entries? context location seen entries = entries? context' location' seen entries' := by
  induction h generalizing seen with
  | nil => simp
  | @cons p p' _ _ hp _ ih =>
    obtain ⟨key, e⟩ := p
    obtain ⟨key', e'⟩ := p'
    simp only [entries?_cons, hp.1, hp.2, ih]

/-- Parts of two templates: equal texts, and interpolations that yield the same. -/
inductive PartsAgree (context context' : Context) (location location' : String) :
    Part Expr → Part Expr → Prop
  | text (s : String) : PartsAgree context context' location location' (.text s) (.text s)
  | interpolation {e e' : Expr}
      (h : value? context location e = value? context' location' e') :
      PartsAgree context context' location location' (.interpolation e) (.interpolation e')

/-- Parts of two templates that agree one by one are spliced into the same text. -/
theorem spliced?_congr {parts parts' : List (Part Expr)}
    (h : List.Forall₂ (PartsAgree context context' location location') parts parts') :
    spliced? context location parts = spliced? context' location' parts' := by
  induction h with
  | nil => simp
  | cons hp _ ih =>
    cases hp with
    | text s => rw [spliced?_text, spliced?_text, ih]
    | interpolation he => rw [spliced?_interpolation, spliced?_interpolation, he, ih]

/-- Templates whose parts agree one by one yield the same, also a lone interpolation, whose value
need not be a text. -/
theorem value?_template_congr {parts parts' : List (Part Expr)}
    (h : List.Forall₂ (PartsAgree context context' location location') parts parts') :
    value? context location (.template parts) = value? context' location' (.template parts') := by
  match h with
  | .nil => rw [value?_template _ _ rfl, value?_template _ _ rfl, spliced?_nil, spliced?_nil]
  | .cons (.interpolation he) .nil => rw [value?_single, value?_single, he]
  | .cons (.text s) rest =>
    rw [value?_template _ _ rfl, value?_template _ _ rfl, spliced?_congr (.cons (.text s) rest)]
  | .cons (.interpolation he) (.cons hp rest) =>
    rw [value?_template _ _ rfl, value?_template _ _ rfl,
      spliced?_congr (.cons (.interpolation he) (.cons hp rest))]

end Congruence

/-! ## Locations do not matter -/

/-- What an expression yields does not depend on where it stands. -/
theorem value?_location (context : Context) (location location' : String) (e : Expr) :
    value? context location e = value? context location' e := by
  induction e with
  | literal v => simp
  -- By induction on the expression. Only a reference looks at the context, all other cases put
  -- together what their parts yield.
  | template parts ih =>
    apply value?_template_congr
    rw [List.forall₂_same]
    rintro (s | e) h
    · exact .text s
    · exact .interpolation (ih e h)
  | reference r => exact Context.lookup_agree context r location location'
  | list items ih => rw [value?_list, value?_list, values?_congr (List.forall₂_same.mpr ih)]
  | map entries ih =>
    rw [value?_map, value?_map,
      entries?_congr (List.forall₂_same.mpr fun p hp =>
        ⟨by rw [(ih p.1 p.2 hp).1], (ih p.1 p.2 hp).2⟩)]
  | access object name ih => rw [value?_attribute, value?_attribute, ih]
  | index object key ih ihk => rw [value?_index, value?_index, ih, ihk]
  | unary op operand ih => cases op <;> simp only [value?_not, value?_neg, ih]
  -- The operators differ in which operands count, which their equations say.
  | binary op left right ihl ihr =>
    cases op <;> simp only [value?_and, value?_or, value?_equal, value?_notEqual, value?_order,
      value?_arithmetic, ihl, ihr]
  | conditional condition yes no ih ihy ihn => simp only [value?_conditional, ih, ihy, ihn]
  | call name args ih => rw [value?_call, value?_call, values?_congr (List.forall₂_same.mpr ih)]

/-- The value of an expression does not depend on where the expression stands. -/
theorem evaluate_agree (context : Context) (location location' : String) (e : Expr) :
    Agree (evaluate context location e) (evaluate context location' e) :=
  value?_location context location location' e

end Expr

namespace Template

/-- The value of a text as a template does not depend on where it stands. -/
theorem evaluateText_agree (context : Context) (location location' text : String) :
    Agree (evaluateText context location text) (evaluateText context location' text) := by
  unfold evaluateText
  split
  · exact Expr.evaluate_agree context location location' _
  · rfl

/-- The key that a template yields does not depend on where it stands. -/
theorem evaluateKey_agree (context : Context) (location location' template : String) :
    Agree (evaluateKey context location template) (evaluateKey context location' template) := by
  have h := evaluateText_agree context location location' template
  simp only [Agree, evaluateKey, Except.toOption_bind, Value.asKey_toOption] at h ⊢
  rw [h]

end Template

namespace Draft

variable {context : Context}

/-- The items of a list yield the same wherever the list stands and from whichever index they are
counted, since an index only goes into a location. -/
theorem evaluateItems_agree {items : List Draft}
    (h : ∀ d ∈ items, ∀ location location',
      Agree (evaluate context location d) (evaluate context location' d))
    (location location' : String) (i j : Nat) :
    Agree (evaluateItems context location i items) (evaluateItems context location' j items) := by
  induction items generalizing i j with
  | nil => rfl
  | cons d rest ih =>
    have hd : Agree _ _ := h d (by simp) (itemLocation location i) (itemLocation location' j)
    have hrest : Agree _ _ := ih (fun d hd => h d (by simp [hd])) (i + 1) (j + 1)
    simp only [Agree, evaluateItems, Except.toOption_bind] at hd hrest ⊢
    rw [hd, hrest]

/-- The entries of a map yield the same wherever the map stands. The location of a value names its
key, which is why the hypothesis is about all locations. -/
theorem evaluateEntries_agree {entries : List (String × Draft)}
    (h : ∀ template d, (template, d) ∈ entries → ∀ location location',
      Agree (evaluate context location d) (evaluate context location' d))
    (location location' : String) (seen : Entries Value) :
    Agree (evaluateEntries context location seen entries)
      (evaluateEntries context location' seen entries) := by
  induction entries generalizing seen with
  | nil => rfl
  | cons entry rest ih =>
    obtain ⟨template, d⟩ := entry
    have hkey := Template.evaluateKey_agree context location location' template
    simp only [Agree, evaluateEntries, Except.toOption_bind] at hkey ⊢
    -- The keys agree, and what is left may assume that they are the same text.
    rw [hkey]
    refine congrArg _ (funext fun key => ?_)
    have hd : Agree _ _ :=
      h template d (by simp) (entryLocation location key) (entryLocation location' key)
    rw [Agree] at hd
    rw [hd]
    refine congrArg _ (funext fun v => ?_)
    split
    · rfl
    · exact ih (fun template d hd => h template d (by simp [hd])) _

/-- The value of a draft does not depend on where the draft stands. -/
theorem evaluate_agree (context : Context) (location location' : String) (d : Draft) :
    Agree (evaluate context location d) (evaluate context location' d) := by
  induction d generalizing location location' with
  | null => rfl
  | bool b => rfl
  | number n => rfl
  | text template => exact Template.evaluateText_agree context location location' template
  | list items ih =>
    have h : Agree _ _ := evaluateItems_agree (fun d hd l l' => ih d hd l l') location location' 0 0
    simp only [Agree, evaluate, Except.toOption_bind] at h ⊢
    rw [h]
  | map entries ih =>
    have h : Agree _ _ :=
      evaluateEntries_agree (fun t d hd l l' => ih t d hd l l') location location' []
    simp only [Agree, evaluate, Except.toOption_bind] at h ⊢
    rw [h]

end Draft

end Deployment
