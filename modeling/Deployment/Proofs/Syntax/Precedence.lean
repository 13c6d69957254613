import Deployment.Proofs.Syntax.Grammar
import Deployment.Proofs.Syntax.Induction
import Deployment.Proofs.Syntax.Rendering
import Mathlib.Data.List.TakeWhile
import Mathlib.Data.Nat.Init

/-! # Precedence

Names with operators between them are read as a tree. Read from left to right, the tree has the
names and operators in the order of the text. An operator that binds tighter never stands above one
that binds less tightly, and operators of equal precedence associate to the left: below an operator,
the left operand is no operation that binds less, and the right operand is one that binds more.
These two conditions leave only one tree (`eq_of_grouped`).

The parser has one function for each level. `ReadsRuns level` says what it reads at a level in front
of an operator that belongs to a lower one. A level reads its first operand at the next level, and
then one operator of its own after the other, each with an operand of the next level behind it.
-/

namespace Deployment

/-- The operators, those that bind less first. -/
def BinaryOp.precedences : List (List String) :=
  [["||"], ["&&"], ["==", "!="], ["<", "<=", ">", ">="], ["+", "-"], ["*", "/", "%"]]

/-- How tightly an operator binds. -/
def BinaryOp.precedence (op : BinaryOp) : Nat :=
  precedences.findIdx (·.contains op.symbol)

/-- The table of precedences is the one that the parser goes through. -/
theorem BinaryOp.precedence_eq_level (op : BinaryOp) : op.precedence = op.level := by
  cases op with
  | order op => cases op <;> decide
  | arithmetic op => cases op <;> decide
  | _ => decide

namespace Expr

open Reads
open Token (Spelled Boundary Lexes)

/-! ## Trees of operations -/

/-- The operands and operators of an operation from left to right. -/
def inOrder : Expr → List (Expr ⊕ BinaryOp)
  | .binary op left right => inOrder left ++ .inr op :: inOrder right
  | e => [.inl e]

/-- An operand that is an operation itself binds tighter, or as tight if it is the left one. -/
def Grouped : Expr → Prop
  | .binary op left right =>
    (∀ op' a b, left = .binary op' a b → op.precedence ≤ op'.precedence) ∧
      ∀ op' a b, right = .binary op' a b → op.precedence < op'.precedence
  | _ => True

/-- The operator on top, if there is one, is of the level or of a higher one. -/
def AtLeast (level : Nat) (e : Expr) : Prop :=
  ∀ op left right, e = .binary op left right → level ≤ op.level

/-- What binds as tightly as a level binds as tightly as every lower one. -/
theorem AtLeast.mono {level level' : Nat} {e : Expr} (h : AtLeast level e) (hle : level' ≤ level) :
    AtLeast level' e :=
  fun op left right heq => Nat.le_trans hle (h op left right heq)

/-- An operation is grouped if its operands are and bind tightly enough, the right one more than the
operator. -/
theorem grouped_binary {op : BinaryOp} {left right : Expr} (hleft : left.Everywhere Grouped)
    (hright : right.Everywhere Grouped) (hl : AtLeast op.level left)
    (hr : AtLeast (op.level + 1) right) : (binary op left right).Everywhere Grouped := by
  refine .intro ⟨fun op' a b heq => ?_, fun op' a b heq => ?_⟩ ?_
  · rw [BinaryOp.precedence_eq_level, BinaryOp.precedence_eq_level]
    exact hl op' a b heq
  · rw [BinaryOp.precedence_eq_level, BinaryOp.precedence_eq_level]
    exact hr op' a b heq
  · simpa [children] using ⟨hleft, hright⟩

/-! ### There is only one -/

/-- A tree is an operation or a single operand. -/
theorem inOrder_cases (e : Expr) :
    (∃ op left right, e = .binary op left right) ∨ e.inOrder = [.inl e] := by
  cases e using induct with
  | binary op left right => exact .inl ⟨op, left, right, rfl⟩
  | _ => exact .inr rfl

/-- The operands of a grouped operation are grouped and bind tightly enough. -/
theorem Everywhere.operands {op : BinaryOp} {left right : Expr}
    (h : (binary op left right).Everywhere Grouped) :
    (left.Everywhere Grouped ∧ AtLeast op.level left) ∧
      right.Everywhere Grouped ∧ AtLeast (op.level + 1) right := by
  obtain ⟨⟨hl, hr⟩, below⟩ := h
  simp only [BinaryOp.precedence_eq_level] at hl hr
  exact ⟨⟨below left (by simp [children]), hl⟩, below right (by simp [children]), hr⟩

/-- If the operator on top does not bind less than a level, then no operator of the tree does. -/
theorem level_le_of_mem {e : Expr} (h : e.Everywhere Grouped) {level : Nat} (hlevel : AtLeast level e)
    {op : BinaryOp} (hop : .inr op ∈ e.inOrder) : level ≤ op.level := by
  induction e generalizing level with
  | binary top left right ihl ihr =>
    obtain ⟨⟨hleft, hl⟩, hright, hr⟩ := h.operands
    have htop : level ≤ top.level := hlevel top left right rfl
    rw [inOrder, List.mem_append, List.mem_cons] at hop
    rcases hop with hop | hop | hop
    · exact ihl hleft (hl.mono htop) hop
    · obtain rfl := Sum.inr.inj hop
      exact htop
    · exact ihr hright (hr.mono (by omega)) hop
  | _ => simp [inOrder] at hop

/-- An operator cannot stand on top of one grouping and to the left of the top in another. -/
theorem not_left_of_top {op op' : BinaryOp} {left right left' right' : Expr}
    (h : (binary op left right).Everywhere Grouped)
    (h' : (binary op' left' right').Everywhere Grouped) {between : List (Expr ⊕ BinaryOp)}
    (hleft : left'.inOrder = left.inOrder ++ .inr op :: between) :
    right.inOrder ≠ between ++ .inr op' :: right'.inOrder := by
  intro hright
  obtain ⟨⟨hgrouped', hl'⟩, -⟩ := h'.operands
  obtain ⟨-, hgrouped, hr⟩ := h.operands
  have hle : op'.level ≤ op.level := level_le_of_mem hgrouped' hl' (by simp [hleft])
  have hlt : op.level + 1 ≤ op'.level := level_le_of_mem hgrouped hr (by simp [hright])
  omega

/-- A single operand is a tree of its own. -/
theorem eq_of_inOrder_eq_singleton {e e' : Expr} (h : e'.inOrder = [.inl e]) : e = e' := by
  rcases inOrder_cases e' with ⟨op, left, right, rfl⟩ | hleaf
  · -- An operation has its operator in it.
    have hop : (.inr op : Expr ⊕ BinaryOp) ∈ [.inl e] := by
      rw [← h, inOrder]
      simp
    simp at hop
  · rw [hleaf] at h
    simpa using h.symm

/-- The operands and operators in order and the grouping leave no choice. -/
theorem eq_of_grouped {e e' : Expr} (h : e.Everywhere Grouped) (h' : e'.Everywhere Grouped)
    (heq : e.inOrder = e'.inOrder) : e = e' := by
  induction e generalizing e' with
  | binary op left right ihl ihr =>
    rcases inOrder_cases e' with ⟨op', left', right', rfl⟩ | hleaf
    · obtain ⟨⟨hleft, -⟩, hright, -⟩ := h.operands
      obtain ⟨⟨hleft', -⟩, hright', -⟩ := h'.operands
      rw [inOrder, inOrder] at heq
      -- Either operator on top may come first in the text. If it is not the same one, it stands to
      -- the left of the other top.
      rcases List.append_eq_append_iff.mp heq with ⟨between, hl, hr⟩ | ⟨between, hl, hr⟩
      · cases between with
        | nil =>
          obtain ⟨hop, htail⟩ := List.cons.inj hr
          obtain rfl := Sum.inr.inj hop
          rw [ihl hleft hleft' (by simpa using hl.symm), ihr hright hright' htail]
        | cons item between =>
          obtain ⟨rfl, htail⟩ := List.cons.inj hr
          exact absurd htail (not_left_of_top h h' hl)
      · cases between with
        | nil =>
          obtain ⟨hop, htail⟩ := List.cons.inj hr
          obtain rfl := Sum.inr.inj hop
          rw [ihl hleft hleft' (by simpa using hl), ihr hright hright' htail.symm]
        | cons item between =>
          obtain ⟨rfl, htail⟩ := List.cons.inj hr
          exact absurd htail (not_left_of_top h' h hl)
    · exact (eq_of_inOrder_eq_singleton (heq.trans hleaf)).symm
  | _ => exact eq_of_inOrder_eq_singleton heq.symm

/-! ## Names and operators -/

/-- What a name stands for on its own. -/
def word (name : String) : Expr :=
  if name = "true" then .literal (.bool true)
  else if name = "false" then .literal (.bool false)
  else if name = "null" then .literal .null
  else .reference ⟨name, []⟩

/-- Names with operators between them. -/
def runText (first : String) : List (BinaryOp × String) → String
  | [] => first
  | (op, name) :: rest => first ++ " " ++ op.symbol ++ " " ++ runText name rest

/-- The operands and operators that are written. -/
def runItems (first : String) (rest : List (BinaryOp × String)) : List (Expr ⊕ BinaryOp) :=
  .inl (word first) :: rest.flatMap fun p => [.inr p.1, .inl (word p.2)]

/-- The tokens of operators with a name behind each. -/
def runTokens (rest : List (BinaryOp × String)) : List Token :=
  rest.flatMap fun p => [.symbol p.1.token, .name p.2]

/-- Names with operators between them are cut into names and operators. -/
theorem spelled_run {first : String} {rest : List (BinaryOp × String)}
    (hfirst : Text.IsName first) (hrest : ∀ p ∈ rest, Text.IsName p.2) :
    Spelled Boundary (runText first rest).toList (.name first :: runTokens rest) := by
  induction rest generalizing first with
  | nil => exact .name hfirst
  | cons p rest ih =>
    obtain ⟨hname, hrest⟩ := List.forall_mem_cons.mp hrest
    have hbetween := (Spelled.operator p.1).between (.name hfirst) (ih hname hrest)
    simpa [runText, runTokens] using hbetween

/-- A name is read as what it stands for on its own. -/
theorem word_reads (name : String) {rest : List Token} (hrest : Ended rest) :
    Reads parseUnary (.name name :: rest) (word name) rest := by
  have hprimary : Reads parsePrimary (.name name :: rest) (word name) rest := by
    by_cases htrue : name = "true"
    · subst htrue
      exact primary_bool true
    by_cases hfalse : name = "false"
    · subst hfalse
      exact primary_bool false
    by_cases hnull : name = "null"
    · subst hnull
      exact primary_null
    have hname : NoName rest := by
      rintro other more rfl
      exact hrest.1 rfl
    rw [word, if_neg htrue, if_neg hfalse, if_neg hnull]
    exact primary_reference (by simp [isKeyword, htrue, hfalse, hnull]) [] hname hrest.2.2
  exact unary_of_primary hprimary (accesses_nil hrest) (by simp) (by simp)

/-- What a name stands for is no operation. -/
theorem word_ne_binary (name : String) (op : BinaryOp) (left right : Expr) :
    word name ≠ .binary op left right := by
  unfold word
  split_ifs <;> simp

/-- What a name stands for is a single operand. -/
theorem inOrder_word (name : String) : inOrder (word name) = [.inl (word name)] := by
  unfold word
  split_ifs <;> rfl

/-- A single operand is grouped. -/
theorem grouped_word (name : String) : (word name).Everywhere Grouped := by
  unfold word
  split_ifs <;> exact .intro trivial (by simp [children])

/-! ## Reading level by level -/

/-- What may follow an operation of a level: no access, and no operator of the level or above. -/
structure Closes (level : Nat) (rest : List Token) : Prop where
  ended : Ended rest
  operator : ∀ k, level ≤ k → NoOperator k rest

/-- A tree of the given names and operators, none of which binds less than the level. -/
structure Arranged (level : Nat) (first : String) (run : List (BinaryOp × String)) (e : Expr) :
    Prop where
  inOrder : e.inOrder = runItems first run
  grouped : e.Everywhere Grouped
  atLeast : AtLeast level e

/-- Names with operators of the level or above are read as a tree of them. -/
def ReadsRuns (level : Nat) : Prop :=
  ∀ first run rest, (∀ p ∈ run, level ≤ BinaryOp.level p.1) → Closes level rest →
    ∃ e, Reads (parseBinary level) (.name first :: (runTokens run ++ rest)) e rest ∧
      Arranged level first run e

section Levels

variable {level : Nat} {first name : String} {op : BinaryOp} {e e' : Expr} {rest : List Token}
  {run more : List (BinaryOp × String)}

theorem Closes.eof : Closes level [.eof] :=
  ⟨⟨by simp, by simp, by simp⟩, fun _ _ _ _ h => by simp at h⟩

/-- What closes a level closes every higher one. -/
theorem Closes.mono {level' : Nat} (h : Closes level rest) (hle : level ≤ level') :
    Closes level' rest :=
  ⟨h.ended, fun k hk => h.operator k (Nat.le_trans hle hk)⟩

/-- A level ends in front of an operator of a lower one. -/
theorem Closes.runTokens (h : Closes level rest) (hrun : ∀ p ∈ run.head?, BinaryOp.level p.1 < level) :
    Closes level (Expr.runTokens run ++ rest) := by
  cases run with
  | nil => exact h
  | cons p run =>
    obtain ⟨op, name⟩ := p
    have hlt : op.level < level := hrun (op, name) rfl
    exact ⟨.operator op _, fun k hk => noOperator_cons (Nat.ne_of_lt (Nat.lt_of_lt_of_le hlt hk))⟩

/-- The operators of the next level and above that come first. -/
theorem exists_split (level : Nat) (run : List (BinaryOp × String)) :
    ∃ high low, run = high ++ low ∧ (∀ p ∈ high, level + 1 ≤ BinaryOp.level p.1) ∧
      ∀ p ∈ low.head?, BinaryOp.level p.1 < level + 1 := by
  refine ⟨run.takeWhile fun p => decide (level + 1 ≤ p.1.level),
    run.dropWhile fun p => decide (level + 1 ≤ p.1.level),
    List.takeWhile_append_dropWhile.symm, fun p hp => ?_, fun p hp => ?_⟩
  · simpa using List.mem_takeWhile_imp hp
  · have hnot := List.head?_dropWhile_not (fun p => decide (level + 1 ≤ BinaryOp.level p.1)) run
    rw [Option.mem_def.mp hp] at hnot
    simpa using hnot

/-- A single name is arranged at every level. -/
theorem Arranged.word (level : Nat) (first : String) : Arranged level first [] (word first) :=
  ⟨inOrder_word first, grouped_word first, fun _ _ _ heq => absurd heq (word_ne_binary _ _ _ _)⟩

/-- What is arranged at a level is arranged at the one below. -/
theorem Arranged.lower (h : Arranged (level + 1) first run e) : Arranged level first run e :=
  ⟨h.inOrder, h.grouped, h.atLeast.mono (Nat.le_succ level)⟩

/-- Another operator of the level goes on with the operation to its left. -/
theorem Arranged.binary (h : Arranged op.level first run e)
    (h' : Arranged (op.level + 1) name more e') :
    Arranged op.level first (run ++ (op, name) :: more) (.binary op e e') where
  inOrder := by
    rw [Expr.inOrder, h.inOrder, h'.inOrder]
    simp [runItems]
  grouped := grouped_binary h.grouped h'.grouped h.atLeast h'.atLeast
  atLeast := by
    intro op' left right heq
    rw [(Expr.binary.inj heq).1]

/-- The operators of a level, one after the other. The invariant: what is read so far is a tree of
the names and operators so far. -/
theorem operators_arranged (hnext : ReadsRuns (level + 1)) (hrest : Closes level rest)
    (harranged : Arranged level first run e) (hmore : ∀ p ∈ more, level ≤ BinaryOp.level p.1)
    (hhead : ∀ p ∈ more.head?, BinaryOp.level p.1 < level + 1) :
    ∃ e', Reads (parseOperators level e) (runTokens more ++ rest) e' rest ∧
      Arranged level first (run ++ more) e' := by
  -- The operand behind an operator takes any number of operators with it.
  induction hlength : more.length using Nat.strong_induction_on generalizing run more e with
  | _ n ih =>
    cases more with
    | nil => exact ⟨e, operators_nil (hrest.operator level (Nat.le_refl level)), by simpa⟩
    | cons p more =>
      obtain ⟨op, name⟩ := p
      obtain ⟨hop, hmore⟩ := List.forall_mem_cons.mp hmore
      obtain rfl : op.level = level := Nat.le_antisymm (Nat.lt_succ_iff.mp (hhead _ rfl)) hop
      obtain ⟨high, low, rfl, hhigh, hlow⟩ := exists_split op.level more
      have hcloses : Closes (op.level + 1) (runTokens low ++ rest) :=
        (hrest.mono (Nat.le_succ _)).runTokens hlow
      obtain ⟨right, hright, hright'⟩ := hnext name high _ hhigh hcloses
      obtain ⟨e', hreads, he'⟩ := ih low.length (by simp at hlength; omega)
        (harranged.binary hright') (fun p hp => hmore p (List.mem_append_right _ hp)) hlow rfl
      refine ⟨e', ?_, by simpa using he'⟩
      have htokens : runTokens ((op, name) :: (high ++ low)) ++ rest =
          .symbol op.token :: .name name :: (runTokens high ++ (runTokens low ++ rest)) := by
        simp [runTokens]
      rw [htokens]
      exact operators_cons hright hreads

/-- A level reads its runs if the next one does: a first operand, and then its own operators. -/
theorem readsRuns_of_next (hlevel : level < 6) (hnext : ReadsRuns (level + 1)) :
    ReadsRuns level := by
  intro first run rest hrun hrest
  obtain ⟨high, low, rfl, hhigh, hlow⟩ := exists_split level run
  have hcloses : Closes (level + 1) (runTokens low ++ rest) :=
    (hrest.mono (Nat.le_succ _)).runTokens hlow
  obtain ⟨left, hleft, hleft'⟩ := hnext first high _ hhigh hcloses
  obtain ⟨e, hreads, he⟩ := operators_arranged hnext hrest hleft'.lower
    (fun p hp => hrun p (List.mem_append_right _ hp)) hlow
  refine ⟨e, ?_, he⟩
  have htokens : runTokens (high ++ low) ++ rest = runTokens high ++ (runTokens low ++ rest) := by
    simp [runTokens]
  rw [htokens]
  exact binary_level hlevel hleft hreads

/-- Every level reads its runs, from the operands up to the operators that bind least. -/
theorem readsRuns (hlevel : level ≤ 6) : ReadsRuns level := by
  induction hlevel using Nat.decreasingInduction with
  | self =>
    intro first run rest hrun hrest
    -- There are no operators above the last level.
    obtain rfl : run = [] := by
      refine List.eq_nil_iff_forall_not_mem.mpr fun p hp => ?_
      exact absurd (hrun p hp) (by have := p.1.level_lt; omega)
    exact ⟨word first, binary_of_unary 6 (Nat.le_refl 6) (word_reads first hrest.ended)
      hrest.operator, .word 6 first⟩
  | of_succ level hlt ih => exact readsRuns_of_next hlt ih

end Levels

/-- Names with operators between them are read as a tree that has them in this order, and in which
operators of higher precedence stand below those of lower, and of equal ones the first below the
last. -/
theorem parse_run {first : String} {rest : List (BinaryOp × String)} (hfirst : Text.IsName first)
    (hrest : ∀ p ∈ rest, Text.IsName p.2) :
    ∃ e, parse (runText first rest) = .ok e ∧ e.inOrder = runItems first rest ∧
      e.Everywhere Grouped ∧
      ∀ e', e'.inOrder = runItems first rest → e'.Everywhere Grouped → e' = e := by
  obtain ⟨e, hreads, he⟩ := readsRuns (Nat.zero_le 6) first rest [.eof] (by simp) .eof
  have hlexes : Lexes (runText first rest).toList (.name first :: (runTokens rest ++ [.eof])) := by
    simpa using (spelled_run hfirst hrest).lexes [] [.eof] trivial .nil
  have hconditional := conditional_of_binary hreads (by simp)
  refine ⟨e, parseText_eq hlexes hconditional, he.inOrder, he.grouped, fun e' horder hgrouped => ?_⟩
  exact eq_of_grouped hgrouped he.grouped (horder.trans he.inOrder.symm)

/-- The tree that is read is the only one with this order and grouping. -/
theorem parse_mixed_run :
    let rest : List (BinaryOp × String) := [(.arithmetic .sub, "b"), (.arithmetic .mul, "c"),
      (.arithmetic .sub, "true"), (.order .less, "d"), (.or, "e"), (.and, "f")]
    (Text.IsName "a" ∧ ∀ p ∈ rest, Text.IsName p.2) ∧
      ∃ e, parse "a - b * c - true < d || e && f" = .ok e ∧ e.inOrder = runItems "a" rest ∧
        e.Everywhere Grouped ∧
        ∀ e', e'.inOrder = runItems "a" rest → e'.Everywhere Grouped → e' = e := by
  intro rest
  have hfirst : Text.IsName "a" := by decide
  have hrest : ∀ p ∈ rest, Text.IsName p.2 := by decide
  exact ⟨⟨hfirst, hrest⟩, parse_run hfirst hrest⟩

end Expr

end Deployment
