import Deployment.Context.Resolution
import Deployment.Proofs.Evaluation.Agreement
import Deployment.Proofs.Syntax.Spelling

/-! # What a failure says about missing local values

The resolution of local values reads the name of a missing one off the failure of an evaluation:
`local.name` is unresolved. A missing attribute or map entry is reported in the same way, with the
access as it is written. `Blames` says that the reading is right for names without dots and
brackets: then nothing but the local value of that name can be meant, and it is missing indeed.

The only access that is written like a local value is `(local).name`. It does no harm, because the
name `local` alone has no value.

A cycle is what the resolution finds out from several such failures. The evaluation of a single
definition reports none.
-/

namespace Deployment.Context

/-- A name that holds no dot and no bracket, as the names of attributes do. -/
def PlainName (name : String) : Prop :=
  '.' ∉ name.toList ∧ '[' ∉ name.toList

instance (name : String) : Decidable (PlainName name) :=
  inferInstanceAs (Decidable (_ ∧ _))

/-- What is reported for a missing local value starts with the word and a dot. -/
theorem localName_toList (name : String) :
    (localName name).toList = 'l' :: 'o' :: 'c' :: 'a' :: 'l' :: '.' :: name.toList := by
  simp [localName]

/-- Different names are reported differently. -/
theorem localName_injective {a b : String} (h : localName a = localName b) : a = b := by
  have := congrArg String.toList h
  simpa only [localName_toList, List.cons.injEq, true_and, String.toList_inj] using this

/-- The name read off a failure is the one that was put in. -/
@[simp] theorem localOf?_localName (name : String) : localOf? (localName name) = some name := by
  simp [localOf?, localName_toList]

/-- A name is only read off what was written for it. -/
theorem eq_localName_of_localOf? {expr name : String} (h : localOf? expr = some name) :
    expr = localName name := by
  unfold localOf? at h
  split at h
  · rename_i rest hrest
    cases h
    rw [← String.toList_inj, localName_toList, hrest, String.toList_ofList]
  · cases h

/-- If the evaluation reports a plain name as an unresolved local value, that local value is
missing. It reports no cycle. -/
structure Blames (locals : Entries Value) {α : Type} (r : Except Failure α) : Prop where
  missing : ∀ name location, PlainName name →
    r = .error (.unresolved (localName name) location) → locals.get? name = none
  acyclic : ∀ expr chain location, r ≠ .error (.invalid expr (.localCycle chain) location)

namespace Blames

variable {locals : Entries Value} {α β : Type}

/-- A success blames nobody. -/
theorem ok (v : α) : Blames locals (.ok v : Except Failure α) where
  missing := by rintro name location - ⟨⟩
  acyclic := by rintro expr chain location ⟨⟩

/-- An invalid expression blames nobody, unless it reports a cycle. -/
theorem invalid (expr : String) (reason : Reason) (location : String)
    (h : ∀ chain, reason ≠ .localCycle chain) :
    Blames locals (.error (.invalid expr reason location) : Except Failure α) where
  missing := by rintro name location - ⟨⟩
  acyclic := by
    rintro expr chain location heq
    cases heq
    exact h chain rfl

/-- A value that is not known yet blames nobody. -/
theorem dynamic (expr location : String) :
    Blames locals (.error (.dynamic expr location) : Except Failure α) where
  missing := by rintro name location - ⟨⟩
  acyclic := by rintro expr chain location ⟨⟩

/-- An unresolved expression blames the local value it is written like, which has to be missing
then. -/
theorem unresolved {expr location : String}
    (h : ∀ name, PlainName name → expr = localName name → locals.get? name = none) :
    Blames locals (.error (.unresolved expr location) : Except Failure α) where
  missing := by
    rintro name location hname heq
    cases heq
    exact h name hname rfl
  acyclic := by rintro expr chain location ⟨⟩

/-- What is not written like a plain local value blames none. -/
theorem unresolved_of_ne {expr location : String}
    (h : ∀ name, PlainName name → expr ≠ localName name) :
    Blames locals (.error (.unresolved expr location) : Except Failure α) :=
  .unresolved fun name hname heq => absurd heq (h name hname)

/-- A sequence blames rightly if its steps do. -/
theorem bind {r : Except Failure α} {f : α → Except Failure β} (h : Blames locals r)
    (hf : ∀ v, r = .ok v → Blames locals (f v)) : Blames locals (r >>= f) := by
  cases r with
  | ok v => exact hf v rfl
  | error e =>
    constructor
    · rintro name location hname heq
      cases heq
      exact h.missing name location hname rfl
    · rintro expr chain location heq
      cases heq
      exact h.acyclic expr chain location rfl

theorem ite {b : Bool} {r s : Except Failure α} (h : Blames locals r) (h' : Blames locals s) :
    Blames locals (if b then r else s) := by
  cases b
  · exact h'
  · exact h

end Blames

/-! ## What is not written like a local value -/

/-- Of two dots one stands in the name. -/
theorem ne_localName_of_dots {expr name : String} (h : 2 ≤ expr.toList.count '.')
    (hname : PlainName name) : expr ≠ localName name := by
  rintro rfl
  have := List.count_eq_zero.mpr hname.1
  simp only [localName_toList, List.count_cons] at h
  simp [this] at h

/-- A bracket does not stand in a plain name. -/
theorem ne_localName_of_bracket {expr name : String} (h : '[' ∈ expr.toList)
    (hname : PlainName name) : expr ≠ localName name := by
  rintro rfl
  simp [localName_toList, hname.2] at h

/-- What starts with another letter is not written like a local value. -/
theorem ne_localName_of_head {expr name : String} (h : expr.toList.head? ≠ some 'l') :
    expr ≠ localName name := by
  rintro rfl
  simp [localName_toList] at h

/-! ## Expressions -/

/-- A missing attribute of a longer path is written with two dots, so it is never taken for a local
value. -/
theorem follow_blames {locals : Entries Value} (location : String) (v : Value) {path : String}
    (hpath : '.' ∈ path.toList) (names : List String) :
    Blames locals (v.follow location path names) := by
  -- By induction on the path, along which what is written only grows.
  induction names generalizing v path with
  | nil => exact .ok v
  | cons name rest ih =>
    have hdots : 2 ≤ (path ++ "." ++ name).toList.count '.' := by
      have := List.count_pos_iff.mpr hpath
      simp only [String.toList_append, List.count_append,
        show List.count '.' ".".toList = 1 by decide]
      omega
    simp only [Value.follow]
    split
    · exact ih _ (List.count_pos_iff.mp (by omega))
    · rename_i e he
      cases v with
      | map entries =>
        simp only [Value.getAttribute] at he
        split at he
        · cases he
        · cases he
          exact .unresolved_of_ne fun _ hname => ne_localName_of_dots hdots hname
      | _ => cases he; exact .invalid _ _ _ (by simp)

/-- A reference blames a local value only if it is one and there is none of that name. -/
theorem lookup_blames (context : Context) (r : Reference) (location : String) :
    Blames context.locals (context.lookup r location) := by
  obtain ⟨root, path⟩ := r
  unfold lookup
  split
  case h_1 hroot =>
    simp only at hroot
    subst hroot
    simp only [resolve]
    split
    · exact .invalid _ _ _ (by simp)
    · split
      · exact follow_blames _ _ (by simp) _
      · exact .unresolved_of_ne fun _ _ => ne_localName_of_head (by simp)
  -- The only case that blames: the local value itself.
  case h_2 hroot =>
    simp only at hroot
    subst hroot
    simp only [resolve]
    split
    · exact .invalid _ _ _ (by simp)
    · rename_i name rest
      split
      · exact follow_blames _ _ (by simp) _
      · rename_i hnone
        refine .unresolved fun missing _ heq => ?_
        rwa [← localName_injective (show localName name = localName missing from heq)]
  case h_3 | h_4 | h_5 => exact .dynamic _ _
  case h_6 hroot | h_7 hroot =>
    simp only at hroot
    subst hroot
    exact .unresolved_of_ne fun _ _ => ne_localName_of_head (by simp [Reference.render_toList])
  case h_8 | h_9 | h_10 => exact .invalid _ _ _ (by simp)
  case h_11 =>
    split
    · exact .invalid _ _ _ (by simp)
    · exact .dynamic _ _

end Deployment.Context

namespace Deployment.Expr

open Context

section Written

attribute [local simp] render renderItems renderEntries renderParts evaluate

/-- What is written `local` is the name itself, which has no value, and no map in any case. -/
theorem evaluate_ne_map_of_render {e : Expr} (h : e.render = "local") (context : Context)
    (location : String) (entries : Entries Value) :
    evaluate context location e ≠ .ok (.map entries) := by
  have hl : e.render.toList = ['l', 'o', 'c', 'a', 'l'] := by simp [h]
  have hmem {c : Char} (hc : c ∈ e.render.toList) : c ∈ ['l', 'o', 'c', 'a', 'l'] := by
    rwa [hl] at hc
  cases e using induct with
  -- A reference without a path is the bare word. Every other expression is written with a character
  -- that the word does not have.
  | reference r =>
    obtain ⟨root, path⟩ := r
    rw [render, Reference.render_toList] at hl hmem
    cases path with
    | nil =>
      obtain rfl : root = "local" := by
        rw [← String.toList_inj]
        simpa using hl
      simp [lookup, resolve]
    | cons name rest => exact absurd (hmem (c := '.') (by simp)) (by simp)
  | literal v =>
    intro heq
    rw [evaluate, Except.ok.injEq] at heq
    subst heq
    cases entries <;> simp [Value.render] at hl
  | map entries => cases entries <;> simp at hl
  | unary op operand => cases op <;> simp [UnaryOp.symbol] at hl
  | access object name => exact absurd (hmem (c := '.') (by simp)) (by simp)
  | index object key => exact absurd (hmem (c := '[') (by simp)) (by simp)
  | binary op left right => exact absurd (hmem (c := ' ') (by simp)) (by simp)
  | conditional condition yes no => exact absurd (hmem (c := ' ') (by simp)) (by simp)
  | call name args => exact absurd (hmem (c := '(') (by simp)) (by simp)
  | _ => simp at hl

/-- The only dot of a local name stands in front of the name. -/
theorem eq_local_of_append {object name missing : List Char} (hmissing : '.' ∉ missing)
    (h : object ++ '.' :: name = ['l', 'o', 'c', 'a', 'l'] ++ '.' :: missing) :
    object = ['l', 'o', 'c', 'a', 'l'] := by
  rcases List.append_eq_append_iff.mp h with ⟨s, hs, ht⟩ | ⟨s, hs, ht⟩
  · cases s with
    | nil => simpa using hs.symm
    | cons c s =>
      have hdot : '.' ∈ ['l', 'o', 'c', 'a', 'l'] := by
        rw [hs, (List.cons.inj ht).1]
        simp
      simp at hdot
  · cases s with
    | nil => simpa using hs
    | cons c s =>
      rw [List.cons_append] at ht
      rw [(List.cons.inj ht).2] at hmissing
      simp at hmissing

variable {context : Context} {location : String}

/-- A missing attribute of an object that has a value is never written like a local value: the
object would have to be written `local`. -/
theorem getAttribute_blames {object : Expr} {v : Value}
    (hv : evaluate context location object = .ok v) (name : String) :
    Blames context.locals (v.getAttribute name (render (.attribute object name)) location) := by
  cases v with
  | map entries =>
    simp only [Value.getAttribute]
    split
    · exact .ok _
    · refine .unresolved_of_ne fun missing hname heq => ?_
      have hl := congrArg String.toList heq
      rw [localName_toList, render, String.toList_append, String.toList_append,
        parensIf_toList] at hl
      -- Parentheses around the object would start what is written, so it stands here without.
      split at hl
      · simp at hl
      · have hdot : object.render.toList ++ '.' :: name.toList =
            ['l', 'o', 'c', 'a', 'l'] ++ '.' :: missing.toList := by simpa using hl
        refine evaluate_ne_map_of_render ?_ context location entries hv
        rw [← String.toList_inj, eq_local_of_append hname.1 hdot]
        rfl
  | _ => exact .invalid _ _ _ (by simp)

/-- A missing item is written with a bracket. -/
theorem getIndex_blames (v k : Value) (object key : Expr) :
    Blames context.locals (v.getIndex k (render (.index object key)) location) := by
  cases v with
  | list items =>
    simp only [Value.getIndex]
    split
    · exact .invalid _ _ _ (by simp)
    · split
      · exact .ok _
      · exact .invalid _ _ _ (by simp)
  | map entries =>
    simp only [Value.getIndex]
    split
    · exact .invalid _ _ _ (by simp)
    · split
      · exact .ok _
      · exact .unresolved_of_ne fun _ => ne_localName_of_bracket (by simp)
  | _ => exact .invalid _ _ _ (by simp)

end Written

section Blames

variable {context : Context} {location : String}

/-- A value of the wrong kind is invalid and blames nobody. -/
theorem asCondition_blames (v : Value) (written : String) :
    Blames context.locals (v.asCondition written location) := by
  unfold Value.asCondition
  split
  · exact .ok _
  · exact .invalid _ _ _ (by simp)

theorem asOperand_blames (v : Value) (op : BinaryOp) (written : String) :
    Blames context.locals (v.asOperand op written location) := by
  unfold Value.asOperand
  split
  · exact .ok _
  · exact .invalid _ _ _ (by simp)

theorem asKey_blames (v : Value) (written : String) :
    Blames context.locals (v.asKey written location) := by
  unfold Value.asKey
  split
  · exact .ok _
  · exact .invalid _ _ _ (by simp)

theorem asSplice_blames (v : Value) (written : String) :
    Blames context.locals (v.asSplice written location) := by
  unfold Value.asSplice
  split
  · exact .ok _
  · exact .invalid _ _ _ (by simp)

theorem applyNegation_blames (v : Value) (written : String) :
    Blames context.locals (applyNegation v written location) := by
  unfold applyNegation
  split
  · exact .invalid _ _ _ (by simp)
  · split
    · exact .ok _
    · exact .invalid _ _ _ (by simp)

theorem applyArithmetic_blames (op : ArithmeticOp) (a b : Value) (written : String) :
    Blames context.locals (applyArithmetic op a b written location) := by
  refine (asOperand_blames a _ _).bind fun x _ => (asOperand_blames b _ _).bind fun y _ => ?_
  split
  · exact .ok _
  · exact .invalid _ _ _ (by simp)

theorem applyCall_blames (f : Function) (args : List Value) (written : String) :
    Blames context.locals (applyCall f args written location) := by
  unfold applyCall
  split
  · exact .ok _
  · exact .invalid _ _ _ (by simp)

attribute [local simp] evaluate evaluateItems evaluateEntries evaluateParts

/-- The items of a list blame rightly if each of them does. -/
theorem evaluateItems_blames {items : List Expr}
    (h : ∀ e ∈ items, Blames context.locals (evaluate context location e)) :
    Blames context.locals (evaluateItems context location items) := by
  induction items with
  | nil => exact .ok _
  | cons e rest ih =>
    simp only [evaluateItems]
    exact (h e (by simp)).bind fun v _ => (ih fun e he => h e (by simp [he])).bind fun vs _ => .ok _

/-- A repeated key is invalid and blames nobody, so entries blame rightly if keys and values do. -/
theorem evaluateEntries_blames {entries : List (Expr × Expr)}
    (h : ∀ key e, (key, e) ∈ entries → Blames context.locals (evaluate context location key) ∧
      Blames context.locals (evaluate context location e)) (seen : Entries Value) :
    Blames context.locals (evaluateEntries context location seen entries) := by
  induction entries generalizing seen with
  | nil => exact .ok _
  | cons entry rest ih =>
    obtain ⟨key, e⟩ := entry
    simp only [evaluateEntries]
    refine (h key e (by simp)).1.bind fun v _ => (asKey_blames v _).bind fun k _ => ?_
    split
    · exact .invalid _ _ _ (by simp)
    · exact (h key e (by simp)).2.bind fun v _ => ih (fun key e he => h key e (by simp [he])) _

/-- A template blames rightly if what it interpolates does. -/
theorem evaluateParts_blames {parts : List (Part Expr)}
    (h : ∀ e, .interpolation e ∈ parts → Blames context.locals (evaluate context location e)) :
    Blames context.locals (evaluateParts context location parts) := by
  induction parts with
  | nil => exact .ok _
  | cons part rest ih =>
    have hrest := ih fun e he => h e (by simp [he])
    cases part with
    | text s =>
      simp only [evaluateParts]
      exact hrest.bind fun t _ => .ok _
    | interpolation e =>
      simp only [evaluateParts]
      exact (h e (by simp)).bind fun v _ => (asSplice_blames v _).bind fun s _ =>
        hrest.bind fun t _ => .ok _

/-- The evaluation of an expression blames rightly. -/
theorem evaluate_blames (e : Expr) : Blames context.locals (evaluate context location e) := by
  induction e with
  | literal v => simpa using .ok v
  | template parts ih =>
    cases hs : Template.single? parts with
    | some e =>
      obtain rfl : parts = [.interpolation e] := Template.eq_of_single? hs
      simpa using ih e (by simp)
    | none =>
      rw [evaluate_template _ _ hs]
      exact (evaluateParts_blames ih).bind fun s _ => .ok _
  | reference r => simpa using lookup_blames context r location
  | list items ih =>
    simp only [evaluate]
    exact (evaluateItems_blames ih).bind fun vs _ => .ok _
  | map entries ih =>
    simp only [evaluate]
    exact (evaluateEntries_blames ih []).bind fun vs _ => .ok _
  | access object name ih =>
    simp only [evaluate]
    exact ih.bind fun v hv => getAttribute_blames hv name
  | index object key ih ihk =>
    simp only [evaluate]
    exact ih.bind fun v _ => ihk.bind fun k _ => getIndex_blames v k object key
  | unary op operand ih =>
    cases op with
    | not =>
      simp only [evaluate]
      exact ih.bind fun v _ => (asCondition_blames v _).bind fun b _ => .ok _
    | neg =>
      simp only [evaluate]
      exact ih.bind fun v _ => applyNegation_blames v _
  | binary op left right ihl ihr =>
    cases op with
    | and =>
      simp only [evaluate]
      exact ihl.bind fun v _ => (asCondition_blames v _).bind fun b _ =>
        .ite (ihr.bind fun w _ => (asCondition_blames w _).bind fun b _ => .ok _) (.ok _)
    | or =>
      simp only [evaluate]
      exact ihl.bind fun v _ => (asCondition_blames v _).bind fun b _ =>
        .ite (.ok _) (ihr.bind fun w _ => (asCondition_blames w _).bind fun b _ => .ok _)
    | equal | notEqual =>
      simp only [evaluate]
      exact ihl.bind fun a _ => ihr.bind fun b _ => .ok _
    | order op =>
      simp only [evaluate]
      exact ihl.bind fun a _ => ihr.bind fun b _ => (asOperand_blames a _ _).bind fun x _ =>
        (asOperand_blames b _ _).bind fun y _ => .ok _
    | arithmetic op =>
      simp only [evaluate]
      exact ihl.bind fun a _ => ihr.bind fun b _ => applyArithmetic_blames op a b _
  | conditional condition yes no ih ihy ihn =>
    simp only [evaluate]
    exact ih.bind fun v _ => (asCondition_blames v _).bind fun b _ => .ite ihy ihn
  | call name args ih =>
    simp only [evaluate]
    split
    · exact .invalid _ _ _ (by simp)
    · exact (evaluateItems_blames ih).bind fun vs _ => applyCall_blames _ _ _

end Blames

end Deployment.Expr

/-! ## Drafts -/

namespace Deployment

open Context

variable {context : Context}

/-- The evaluation of a text as a template blames rightly. A text that cannot be read is invalid. -/
theorem Template.evaluateText_blames (location text : String) :
    Blames context.locals (evaluateText context location text) := by
  unfold evaluateText
  split
  · exact Expr.evaluate_blames _
  · exact .invalid _ _ _ (by simp)

namespace Draft

theorem evaluateItems_blames {items : List Draft}
    (h : ∀ d ∈ items, ∀ location, Blames context.locals (evaluate context location d))
    (location : String) (i : Nat) :
    Blames context.locals (evaluateItems context location i items) := by
  induction items generalizing i with
  | nil => exact .ok _
  | cons d rest ih =>
    simp only [evaluateItems]
    exact (h d (by simp) _).bind fun v _ =>
      (ih (fun d hd => h d (by simp [hd])) _).bind fun vs _ => .ok _

theorem evaluateEntries_blames {entries : List (String × Draft)}
    (h : ∀ template d, (template, d) ∈ entries → ∀ location,
      Blames context.locals (evaluate context location d)) (location : String)
    (seen : Entries Value) :
    Blames context.locals (evaluateEntries context location seen entries) := by
  induction entries generalizing seen with
  | nil => exact .ok _
  | cons entry rest ih =>
    obtain ⟨template, d⟩ := entry
    simp only [evaluateEntries]
    refine ((Template.evaluateText_blames location template).bind fun v _ =>
      Expr.asKey_blames v _).bind fun key _ => (h template d (by simp) _).bind fun v _ => ?_
    split
    · exact .invalid _ _ _ (by simp)
    · exact ih (fun template d hd => h template d (by simp [hd])) _

/-- A plain name that the evaluation of a draft reports as an unresolved local value is missing. No
cycle is reported. -/
theorem evaluate_blames (location : String) (d : Draft) :
    Blames context.locals (evaluate context location d) := by
  induction d generalizing location with
  | null => exact .ok _
  | bool b => exact .ok _
  | number n => exact .ok _
  | text template => exact Template.evaluateText_blames location template
  | list items ih =>
    simp only [evaluate]
    exact (evaluateItems_blames (fun d hd l => ih d hd l) _ 0).bind fun vs _ => .ok _
  | map entries ih =>
    simp only [evaluate]
    exact (evaluateEntries_blames (fun t d hd l => ih t d hd l) _ []).bind fun vs _ => .ok _

end Draft

end Deployment
