import Deployment.Proofs.Evaluation.Equivalence
import Deployment.Proofs.Syntax.Grammar
import Deployment.Proofs.Syntax.Rendering

/-! # Written expressions are read as equivalent ones

The parser does not always give back the expression that was written: a negative number comes back
as a negation, a literal list as a list of literals, and attributes of a reference as a longer
reference. `Rereads e` says that the tokens of `e` are read as an expression equivalent to it,
whatever stands behind them. An operand is read together with the accesses behind it, so the
statement about operands, `ReadsObject`, is about all accesses at once: `Accessed e ts e₁` says that
the tokens `ts` behind `e` make it the expression `e₁`.

How operators, items, entries and templates are read does not depend on what is kept of their parts.
Those lemmas are about any relation between what was written and what is read (`RereadsAs`).
-/

namespace Deployment.Expr

open Reads
open Token (Spelled Boundary enclosed separated groupedIf)

/-! ## How tokens start and what stops them -/

/-- A token that an expression may start with. -/
inductive Begins : Token → Prop
  | number (s : String) : Begins (.number s)
  | quoted (content : List Char) : Begins (.quoted content)
  | name (s : String) : Begins (.name s)
  | symbol {s : Symbol} (h : s ∈ [.minus, .not, .openParen, .openBracket, .openBrace]) :
      Begins (.symbol s)

/-- The tokens start with a token that an expression may start with. -/
def Starts (ts : List Token) : Prop :=
  ∃ t rest, ts = t :: rest ∧ Begins t

theorem Starts.append {ts : List Token} (h : Starts ts) (more : List Token) :
    Starts (ts ++ more) := by
  obtain ⟨t, rest, rfl, ht⟩ := h
  exact ⟨t, rest ++ more, rfl, ht⟩

/-- In parentheses or not, the tokens start an expression. -/
theorem Starts.groupedIf {ts : List Token} (h : Starts ts) (condition : Bool) :
    Starts (groupedIf condition ts) := by
  cases condition with
  | false => exact h
  | true => exact ⟨_, _, rfl, .symbol (by decide)⟩

/-- An expression starts with none of the other symbols, so the parser does not take it for the end
of a list or for a comma. -/
theorem Starts.head_ne {ts : List Token} (h : Starts ts) {s : Symbol}
    (hs : s ∉ [.minus, .not, .openParen, .openBracket, .openBrace]) :
    ts.head? ≠ some (.symbol s) := by
  obtain ⟨t, rest, rfl, ht⟩ := h
  rintro heq
  obtain rfl : t = .symbol s := by simpa using heq
  cases ht with
  | symbol h => exact hs h

/-- A number starts an expression, also a negative one with its sign. -/
theorem starts_number (n : Number) : Starts n.tokens := by
  unfold Number.tokens
  split
  · exact ⟨_, _, rfl, .symbol (by decide)⟩
  · exact ⟨_, _, rfl, .number _⟩

/-- Every written value starts an expression. -/
theorem starts_literal (v : Value) : Starts v.tokens := by
  cases v with
  | null => exact ⟨_, _, rfl, .name _⟩
  | bool b => exact ⟨_, _, rfl, .name _⟩
  | number n => exact starts_number n
  | text s => exact ⟨_, _, rfl, .quoted _⟩
  | list items => exact ⟨_, _, rfl, .symbol (by decide)⟩
  | map entries => exact ⟨_, _, rfl, .symbol (by decide)⟩

/-- No written value starts with the word of a comprehension. -/
theorem literal_head_ne (v : Value) : v.tokens.head? ≠ some (.name "for") := by
  cases v with
  | bool b => cases b <;> decide
  | number n =>
    rw [Value.tokens]
    unfold Number.tokens
    split <;> simp
  | _ => simp [Value.tokens, enclosed, Token.ofText]

/-- Every written expression starts an expression. -/
theorem starts_tokens (e : Expr) : Starts e.tokens := by
  induction e with
  | literal v => exact starts_literal v
  | template parts => exact ⟨_, _, rfl, .quoted _⟩
  | reference r => exact ⟨_, _, rfl, .name _⟩
  | list items => exact ⟨_, _, rfl, .symbol (by decide)⟩
  | map entries => exact ⟨_, _, rfl, .symbol (by decide)⟩
  | access object name ih => exact (ih.groupedIf _).append _
  | index object key ih => exact (ih.groupedIf _).append _
  | unary op operand => cases op <;> exact ⟨_, _, rfl, .symbol (by decide)⟩
  | binary op left right ih => exact (ih.groupedIf _).append _
  | conditional condition yes no ih => exact (ih.groupedIf _).append _
  | call name args => exact ⟨_, _, rfl, .name _⟩

/-- What stands behind a whole expression: nothing that would go on with it. -/
structure Stops (rest : List Token) : Prop where
  ended : Ended rest
  question : rest.head? ≠ some (.symbol .question)
  operator : ∀ level, NoOperator level rest

/-- A comma, a colon, an equals sign and every closing bracket end an expression. -/
theorem Stops.symbol {s : Symbol}
    (hs : s ∈ [.comma, .colon, .assign, .closeParen, .closeBracket, .closeBrace])
    (rest : List Token) : Stops (.symbol s :: rest) := by
  simp only [List.mem_cons, List.not_mem_nil, or_false] at hs
  refine ⟨⟨?_, ?_, ?_⟩, ?_, fun level s' op hs' hop => ?_⟩
  · rcases hs with rfl | rfl | rfl | rfl | rfl | rfl <;> simp
  · rcases hs with rfl | rfl | rfl | rfl | rfl | rfl <;> simp
  · rcases hs with rfl | rfl | rfl | rfl | rfl | rfl <;> simp
  · rcases hs with rfl | rfl | rfl | rfl | rfl | rfl <;> simp
  · obtain rfl : s = s' := by simpa using hs'
    rcases hs with rfl | rfl | rfl | rfl | rfl | rfl <;> cases hop

theorem Stops.eof : Stops [.eof] :=
  ⟨⟨by simp, by simp, by simp⟩, by simp, fun _ _ _ h => by simp at h⟩

/-! ## Rereading -/

/-- The tokens of the expression are read as a related one. -/
def RereadsAs (R : Expr → Expr → Prop) (e : Expr) : Prop :=
  ∀ rest, Stops rest → ∃ e', Reads parseConditional (e.tokens ++ rest) e' rest ∧ R e e'

/-- The tokens of the expression are read as an equivalent one. -/
def Rereads (e : Expr) : Prop :=
  RereadsAs Equivalent e

/-- What is read as a related expression is read as one in every wider relation. -/
theorem RereadsAs.mono {R R' : Expr → Expr → Prop} {e : Expr} (h : RereadsAs R e)
    (hR : ∀ e', R e e' → R' e e') : RereadsAs R' e := fun rest hrest => by
  obtain ⟨e', hreads, he'⟩ := h rest hrest
  exact ⟨e', hreads, hR e' he'⟩

/-- The tokens behind an expression are accesses that make it another one. -/
inductive Accessed : Expr → List Token → Expr → Prop
  | nil (e : Expr) : Accessed e [] e
  | name {e e₁ : Expr} {name : String} {ts : List Token}
      (h : ∀ root, e = .reference ⟨root, []⟩ → root ≠ "var" ∧ root ≠ "local")
      (more : Accessed (.attribute e name) ts e₁) :
      Accessed e (.symbol .dot :: .name name :: ts) e₁
  | index {e e₁ key : Expr} {ts : List Token} (h : Rereads key)
      (more : Accessed (.index e key) ts e₁) :
      Accessed e (enclosed .openBracket .closeBracket key.tokens ++ ts) e₁

/-- The written tokens are read as an operand like the expression, with all accesses behind it. -/
def ReadsObject (written : List Token) (e : Expr) : Prop :=
  ∀ ts e₁ rest, Accessed e ts e₁ → Ended rest →
    ∃ e', Reads parseUnary (written ++ (ts ++ rest)) e' rest ∧ Equivalent e₁ e'

/-! ## Accesses -/

namespace Accessed

variable {e e₁ : Expr} {ts rest : List Token}

/-- The accesses are read behind any equivalent expression. -/
theorem reads (h : Accessed e ts e₁) {o : Expr} (ho : Equivalent e o) (hrest : Ended rest) :
    ∃ e', Reads (parseAccesses o) (ts ++ rest) e' rest ∧ Equivalent e₁ e' := by
  induction h generalizing o with
  | nil e => exact ⟨o, accesses_nil hrest, ho⟩
  | @name e e₁ name ts _ _ ih =>
    obtain ⟨e', hreads, he'⟩ := ih (ho.access name)
    exact ⟨e', accesses_attribute hreads, he'⟩
  | @index e e₁ key ts hkey _ ih =>
    have hstops : Stops (.symbol .closeBracket :: (ts ++ rest)) := .symbol (by decide) _
    obtain ⟨key', hreadsKey, hkey'⟩ := hkey _ hstops
    obtain ⟨e', hreads, he'⟩ := ih (ho.index hkey')
    have htokens : enclosed .openBracket .closeBracket key.tokens ++ ts ++ rest =
        .symbol .openBracket :: (key.tokens ++ .symbol .closeBracket :: (ts ++ rest)) := by
      simp [enclosed]
    have hstar := ((starts_tokens key).append (.symbol .closeBracket :: (ts ++ rest))).head_ne
      (s := .star) (by decide)
    rw [htokens]
    exact ⟨e', accesses_index hstar hreadsKey hreads, he'⟩

/-- No call starts where accesses start or end. -/
theorem head_ne (h : Accessed e ts e₁) (hrest : Ended rest) :
    (ts ++ rest).head? ≠ some (.symbol .openParen) := by
  cases h with
  | nil => exact hrest.2.2
  | name => simp
  | index => simp [enclosed]

/-- The same accesses are possible behind every expression that is no reference. -/
theorem behind (h : Accessed e ts e₁) {o : Expr} (ho : ∀ r, o ≠ .reference r) :
    ∃ e₂, Accessed o ts e₂ := by
  induction h generalizing o with
  | nil => exact ⟨o, .nil o⟩
  | @name e e₁ name ts _ _ ih =>
    obtain ⟨e₂, h₂⟩ := @ih (.attribute o name) (by simp)
    exact ⟨e₂, .name (fun root heq => absurd heq (ho _)) h₂⟩
  | @index e e₁ key ts hkey _ ih =>
    obtain ⟨e₂, h₂⟩ := @ih (.index o key) (by simp)
    exact ⟨e₂, .index hkey h₂⟩

/-- What is behind an expression without a value has no value. -/
theorem value?_eq_none (h : Accessed e ts e₁) {context : Context} {location : String}
    (he : value? context location e = none) : value? context location e₁ = none := by
  induction h with
  | nil => exact he
  | name _ _ ih => exact ih (by simp [he])
  | index _ _ ih => exact ih (by simp [he])

/-- There is nothing in a number to access. -/
theorem of_number {n : Number} (h : Accessed (.literal (.number n)) ts e₁) :
    (ts = [] ∧ e₁ = .literal (.number n)) ∨
      ∀ context location, value? context location e₁ = none := by
  cases h with
  | nil => exact .inl ⟨rfl, rfl⟩
  | name _ more => exact .inr fun context location => more.value?_eq_none (by simp; rfl)
  | @index _ _ key ts _ more =>
    refine .inr fun context location => more.value?_eq_none ?_
    cases hkey : value? context location key <;> simp [hkey]
    rfl

/-- The attributes behind a reference are read as part of it. -/
theorem of_reference {r : Reference} (h : Accessed e ts e₁) (he : Equivalent e (.reference r))
    (hpath : r.path = [] → e = .reference r) (hrest : Ended rest) :
    ∃ names ts₁ e₂, ts = pathTokens names ++ ts₁ ∧ NoName (ts₁ ++ rest) ∧ Accessed e₂ ts₁ e₁ ∧
      Equivalent e₂ (.reference ⟨r.root, r.path ++ names⟩) := by
  induction h generalizing r with
  | nil e =>
    refine ⟨[], [], e, rfl, ?_, .nil e, by simpa using he⟩
    rintro name more rfl
    exact hrest.1 rfl
  | @name e e₁ name ts hroot more ih =>
    have hlonger : Equivalent (.attribute e name) (.reference ⟨r.root, r.path ++ [name]⟩) := by
      refine (he.access name).trans (equivalent_reference name fun hnil => ?_)
      refine hroot r.root ?_
      rw [hpath hnil, ← hnil]
    obtain ⟨names, ts₁, e₂, rfl, hname, hmore, he₂⟩ := ih hlonger (by simp)
    exact ⟨name :: names, ts₁, e₂, rfl, hname, hmore, by simpa using he₂⟩
  | @index e e₁ key ts hkey more ih =>
    refine ⟨[], _, e, rfl, ?_, .index hkey more, by simpa using he⟩
    rintro name more heq
    simp at heq

end Accessed

/-! ## Operands -/

section Operands

variable {e : Expr} {t : Token} {ts rest : List Token}

/-- An operand on its own. -/
theorem ReadsObject.reads (h : ReadsObject ts e) (hrest : Ended rest) :
    ∃ e', Reads parseUnary (ts ++ rest) e' rest ∧ Equivalent e e' :=
  h [] e rest (.nil e) hrest

/-- An operand where a whole expression is wanted. -/
theorem conditional_of_unary (h : Reads parseUnary ts e rest) (hrest : Stops rest) :
    Reads parseConditional ts e rest :=
  conditional_of_binary (binary_of_unary 0 (by decide) h fun k _ => hrest.operator k)
    hrest.question

/-- An operand with no operator behind it is a whole expression. -/
theorem ReadsObject.whole (h : ReadsObject ts e) (hrest : Stops rest) :
    ∃ e', Reads parseConditional (ts ++ rest) e' rest ∧ Equivalent e e' := by
  obtain ⟨e', hreads, he'⟩ := h.reads hrest.ended
  exact ⟨e', conditional_of_unary hreads hrest, he'⟩

/-- A primary is an operand: the accesses behind it are read behind whatever the primary is read as.
-/
theorem ReadsObject.of_primary (hnot : t ≠ .symbol .not) (hminus : t ≠ .symbol .minus)
    (h : ∀ rest, ∃ o, Reads parsePrimary (t :: ts ++ rest) o rest ∧ Equivalent e o) :
    ReadsObject (t :: ts) e := by
  intro accesses e₁ rest haccessed hrest
  obtain ⟨o, hprimary, ho⟩ := h (accesses ++ rest)
  obtain ⟨e', haccesses, he'⟩ := haccessed.reads ho hrest
  exact ⟨e', unary_of_primary hprimary haccesses (by simpa using hnot) (by simpa using hminus), he'⟩

/-- An expression in parentheses. -/
theorem RereadsAs.enclosed {R : Expr → Expr → Prop} (h : RereadsAs R e) (rest : List Token) :
    ∃ e', Reads parsePrimary (Token.enclosed .openParen .closeParen e.tokens ++ rest) e' rest ∧
      R e e' := by
  have hstops : Stops (.symbol .closeParen :: rest) := .symbol (by decide) _
  obtain ⟨e', hreads, he'⟩ := h _ hstops
  exact ⟨e', by simpa [Token.enclosed] using primary_parens hreads, he'⟩

/-- Parentheses, where the printer writes them, do not change what is read. -/
theorem RereadsAs.groupedIf {R : Expr → Expr → Prop} (h : RereadsAs R e) (condition : Bool)
    (hrest : Stops rest) :
    ∃ e', Reads parseConditional (Token.groupedIf condition e.tokens ++ rest) e' rest ∧ R e e' := by
  cases condition with
  | false => exact h rest hrest
  | true =>
    obtain ⟨e', hprimary, he'⟩ := h.enclosed rest
    have hunary := unary_of_primary hprimary (accesses_nil hrest.ended) (by simp [Token.enclosed])
      (by simp [Token.enclosed])
    exact ⟨e', conditional_of_unary hunary hrest, he'⟩

/-- Every expression is an operand in parentheses. -/
theorem Rereads.grouped (h : Rereads e) :
    ReadsObject (enclosed .openParen .closeParen e.tokens) e :=
  .of_primary (by simp) (by simp) (RereadsAs.enclosed h)

/-- An operand is read back whether it is in parentheses or not, if it needs none where it has none.
-/
theorem Rereads.groupedIf (h : Rereads e) {condition : Bool}
    (hplain : condition = false → ReadsObject e.tokens e) :
    ReadsObject (groupedIf condition e.tokens) e := by
  cases condition with
  | false => exact hplain rfl
  | true => exact h.grouped

end Operands

/-- The expression is read back, as a whole and as an operand. -/
structure Reread (e : Expr) : Prop where
  whole : Rereads e
  operand : ReadsObject e.operandTokens e

/-- What is read as an operand needs no parentheses, so it is also read as a whole. -/
theorem Reread.of_object {e : Expr} (h : ReadsObject e.tokens e) : Reread e :=
  have whole : Rereads e := fun _ => h.whole
  ⟨whole, whole.groupedIf fun _ => h⟩

/-- What always stands in parentheses as an operand has to be read as a whole only. -/
theorem Reread.of_whole {e : Expr} (h : Rereads e) (hparens : e.needsParens = true) : Reread e :=
  ⟨h, h.groupedIf fun hplain => absurd hplain (by simp [hparens])⟩

/-! ## Operators -/

section Operators

variable {e e' e₁ e₁' e₂ e₂' : Expr} {rest : List Token}

/-- An operator in front of an operand is read as a whole expression. -/
theorem conditional_unary (op : UnaryOp) (h : Reads parseUnary (e.operandTokens ++ rest) e' rest)
    (hrest : Stops rest) :
    Reads parseConditional ((Expr.unary op e).tokens ++ rest) (.unary op e') rest := by
  rw [tokens]
  exact conditional_of_unary (Reads.unary op h) hrest

/-- An operator between two operands is read as a whole expression. The operands bear no operators
of their own, since the printer puts those in parentheses. -/
theorem conditional_binary (op : BinaryOp)
    (h : Reads parseUnary (e.operandTokens ++ .symbol op.token :: (e₁.operandTokens ++ rest)) e'
      (.symbol op.token :: (e₁.operandTokens ++ rest)))
    (h₁ : Reads parseUnary (e₁.operandTokens ++ rest) e₁' rest) (hrest : Stops rest) :
    Reads parseConditional ((Expr.binary op e e₁).tokens ++ rest) (.binary op e' e₁') rest := by
  rw [tokens, List.append_assoc, List.cons_append]
  exact conditional_of_binary (Reads.binary h h₁ hrest.operator) hrest.question

/-- A conditional is read from its three operands. -/
theorem conditional_conditional
    (h : Reads parseUnary (e.operandTokens ++ .symbol .question ::
      (e₁.operandTokens ++ .symbol .colon :: (e₂.operandTokens ++ rest))) e' (.symbol .question ::
        (e₁.operandTokens ++ .symbol .colon :: (e₂.operandTokens ++ rest))))
    (h₁ : Reads parseUnary (e₁.operandTokens ++ .symbol .colon :: (e₂.operandTokens ++ rest)) e₁'
      (.symbol .colon :: (e₂.operandTokens ++ rest)))
    (h₂ : Reads parseUnary (e₂.operandTokens ++ rest) e₂' rest) (hrest : Stops rest) :
    Reads parseConditional ((Expr.conditional e e₁ e₂).tokens ++ rest) (.conditional e' e₁' e₂')
      rest := by
  have hbinary := binary_of_unary 0 (by decide) h fun level _ s op hs hop => by
    obtain rfl : Symbol.question = s := by simpa using hs
    cases hop
  have hyes := conditional_of_unary h₁ (.symbol (by decide) _)
  simpa [tokens, operandTokens] using
    Reads.conditional hbinary hyes (conditional_of_unary h₂ hrest)

end Operators

/-- An operator in front of an expression is read back if the expression is. -/
theorem unary_reread {e : Expr} (op : UnaryOp) (h : Reread e) : Reread (.unary op e) := by
  refine .of_whole (fun rest hrest => ?_) rfl
  obtain ⟨e', hreads, he'⟩ := h.operand.reads hrest.ended
  exact ⟨.unary op e', conditional_unary op hreads hrest, he'.unary op⟩

/-- An operator between expressions is read back if both are. -/
theorem binary_reread {e e₁ : Expr} (op : BinaryOp) (h : Reread e) (h₁ : Reread e₁) :
    Reread (.binary op e e₁) := by
  refine .of_whole (fun rest hrest => ?_) rfl
  obtain ⟨e₁', hreads₁, he₁'⟩ := h₁.operand.reads hrest.ended
  obtain ⟨e', hreads, he'⟩ := h.operand.reads (.operator op (e₁.operandTokens ++ rest))
  exact ⟨.binary op e' e₁', conditional_binary op hreads hreads₁ hrest, he'.binary op he₁'⟩

/-- A conditional is read back if its three expressions are. -/
theorem conditional_reread {e e₁ e₂ : Expr} (h : Reread e) (h₁ : Reread e₁) (h₂ : Reread e₂) :
    Reread (.conditional e e₁ e₂) := by
  refine .of_whole (fun rest hrest => ?_) rfl
  obtain ⟨e₂', hreads₂, he₂'⟩ := h₂.operand.reads hrest.ended
  obtain ⟨e₁', hreads₁, he₁'⟩ :=
    h₁.operand.reads (.symbol (s := .colon) (by decide) (e₂.operandTokens ++ rest))
  obtain ⟨e', hreads, he'⟩ := h.operand.reads (.symbol (s := .question) (by decide)
    (e₁.operandTokens ++ .symbol .colon :: (e₂.operandTokens ++ rest)))
  exact ⟨.conditional e' e₁' e₂', conditional_conditional hreads hreads₁ hreads₂ hrest,
    he'.conditional he₁' he₂'⟩

/-! ## Items and entries -/

section Lists

variable {R K : Expr → Expr → Prop} {items : List Expr} {entries : List (Expr × Expr)}
  (rest : List Token)

theorem separated_cons_cons (ts ts' : List Token) (tss : List (List Token)) :
    separated (ts :: ts' :: tss) = ts ++ .symbol .comma :: separated (ts' :: tss) :=
  rfl

/-- The items of a list or of a call are read one by one up to the closing bracket. -/
theorem items_reread {close : Symbol} (hclose : close = .closeParen ∨ close = .closeBracket)
    (h : ∀ e ∈ items, RereadsAs R e) :
    ∃ items', Reads (parseItems close) (separated (items.map tokens) ++ .symbol close :: rest)
      items' rest ∧ List.Forall₂ R items items' := by
  have hcomma : close ≠ .comma ∧ close ≠ .ellipsis := by
    rcases hclose with rfl | rfl <;> decide
  have hstops : Stops (.symbol close :: rest) :=
    .symbol (by rcases hclose with rfl | rfl <;> decide) rest
  have hopens : close ∉ [.minus, .not, .openParen, .openBracket, .openBrace] := by
    rcases hclose with rfl | rfl <;> decide
  -- By induction on the items. The last one is followed by the bracket, every other one by a comma.
  induction items with
  | nil => exact ⟨[], items_nil close, .nil⟩
  | cons e more ih =>
    obtain ⟨items', hitems, hitems'⟩ := ih fun e he => h e (List.mem_cons_of_mem _ he)
    cases more with
    | nil =>
      cases hitems'
      obtain ⟨e', hreads, he'⟩ := h e (by simp) _ hstops
      exact ⟨[e'], items_last hcomma (((starts_tokens e).append _).head_ne hopens) hreads,
        .cons he' .nil⟩
    | cons e₁ more =>
      obtain ⟨e', hreads, he'⟩ := h e (by simp) _ (.symbol (s := .comma) (by decide) _)
      rw [List.map_cons, List.map_cons, separated_cons_cons, List.append_assoc]
      exact ⟨e' :: items', items_cons (((starts_tokens e).append _).head_ne hopens) hreads hitems,
        .cons he' hitems'⟩

/-- Of the keys, only truth values and the literal null start with a name. -/
theorem key_head (key : Expr) : (∃ b, key = .literal (.bool b)) ∨ key = .literal .null ∨
    ∃ t ts, groupedIf (!key.isBareKey) key.tokens = t :: ts ∧ ∀ name, t ≠ .name name := by
  cases key with
  | literal v =>
    cases v with
    | null => exact .inr (.inl rfl)
    | bool b => exact .inl ⟨b, rfl⟩
    | number n =>
      refine .inr (.inr ?_)
      show ∃ t ts, n.tokens = t :: ts ∧ ∀ name, t ≠ .name name
      unfold Number.tokens
      split
      · exact ⟨_, _, rfl, by simp⟩
      · exact ⟨_, _, rfl, by simp⟩
    | text s => exact .inr (.inr ⟨_, _, rfl, by simp [Token.ofText]⟩)
    | _ => exact .inr (.inr ⟨_, _, rfl, by simp⟩)
  | _ => exact .inr (.inr ⟨_, _, rfl, by simp⟩)

/-- The key of an entry is read as a related one. -/
def KeyRereadsAs (K : Expr → Expr → Prop) (key : Expr) : Prop :=
  ∀ rest, ∃ key', Reads parseKey (groupedIf (!key.isBareKey) key.tokens ++ .symbol .assign :: rest)
    key' (.symbol .assign :: rest) ∧ K key key'

/-- The key of an entry is read back, except that the word for a truth value is read as text. -/
theorem key_reread {key : Expr} (h : RereadsAs R key) (hnull : key ≠ .literal .null)
    (hbool : ∀ b, key = .literal (.bool b) → K key (.literal (.text (toString b))))
    (hsame : ∀ key', R key key' → K key key') : KeyRereadsAs K key := by
  intro rest
  rcases key_head key with ⟨b, rfl⟩ | hnull' | ⟨t, ts, heq, ht⟩
  · exact ⟨.literal (.text (toString b)), key_name (toString b), hbool b rfl⟩
  · exact absurd hnull' hnull
  · have hstops : Stops (.symbol .assign :: rest) := .symbol (by decide) _
    obtain ⟨key', hreads, hkey'⟩ := h.groupedIf (!key.isBareKey) hstops
    rw [heq] at hreads ⊢
    exact ⟨key', key_expression (fun name => by simpa using ht name) hreads, hsame key' hkey'⟩

/-- The entries of a map constructor are read one by one up to the closing brace. -/
theorem entries_reread (h : ∀ p ∈ entries, KeyRereadsAs K p.1 ∧ RereadsAs R p.2) :
    ∃ entries', Reads parseEntries
      (separated (entries.map entryTokens) ++ .symbol .closeBrace :: rest) entries' rest ∧
        List.Forall₂ (fun p p' => K p.1 p'.1 ∧ R p.2 p'.2) entries entries' := by
  -- By induction on the entries, as for items, with a key and an equals sign in front of each
  -- value.
  induction entries with
  | nil => exact ⟨[], entries_nil, .nil⟩
  | cons p more ih =>
    obtain ⟨key, e⟩ := p
    obtain ⟨hkey, he⟩ := h (key, e) (by simp)
    obtain ⟨entries', hentries, hentries'⟩ := ih fun p hp => h p (List.mem_cons_of_mem _ hp)
    have hhead := ((starts_tokens key).groupedIf (!key.isBareKey)).append
    cases more with
    | nil =>
      cases hentries'
      obtain ⟨e', hreads, he'⟩ := he (.symbol .closeBrace :: rest) (.symbol (by decide) _)
      obtain ⟨key', hreadsKey, hkey'⟩ := hkey _
      refine ⟨[(key', e')], ?_, .cons ⟨hkey', he'⟩ .nil⟩
      rw [List.map_singleton, separated, entryTokens, List.append_assoc, List.cons_append]
      exact entries_cons ((hhead _).head_ne (by decide)) hreadsKey hreads
        ⟨_, .inr ⟨rfl, by simp⟩, hentries⟩
    | cons p₁ more =>
      obtain ⟨e', hreads, he'⟩ := he _ (.symbol (s := .comma) (by decide) _)
      obtain ⟨key', hreadsKey, hkey'⟩ := hkey _
      refine ⟨(key', e') :: entries', ?_, .cons ⟨hkey', he'⟩ hentries'⟩
      rw [List.map_cons, List.map_cons, separated_cons_cons, entryTokens, List.append_assoc,
        List.append_assoc, List.cons_append, List.cons_append]
      exact entries_cons ((hhead _).head_ne (by decide)) hreadsKey hreads ⟨_, .inl rfl, hentries⟩

end Lists

/-! ## Constructors -/

section Constructors

variable {R K : Expr → Expr → Prop} {items : List Expr} {entries : List (Expr × Expr)}
  (rest : List Token)

/-- A list is read back item by item. It must not start with the word that makes it a comprehension.
-/
theorem primary_list_reread (hfor : ∀ e ∈ items.head?, e.tokens.head? ≠ some (.name "for"))
    (h : ∀ e ∈ items, RereadsAs R e) : ∃ items', Reads parsePrimary
      (enclosed .openBracket .closeBracket (separated (items.map tokens)) ++ rest) (.list items')
        rest ∧ List.Forall₂ R items items' := by
  obtain ⟨items', hitems, hitems'⟩ := items_reread rest (.inr rfl) h
  refine ⟨items', ?_, hitems'⟩
  rw [enclosed, List.cons_append, List.append_assoc, List.singleton_append]
  refine primary_list ?_ hitems
  cases items with
  | nil => simp [separated]
  | cons e more =>
    obtain ⟨t, ts, ht, -⟩ := starts_tokens e
    have hhead : t ≠ .name "for" := by simpa [ht] using hfor e rfl
    cases more <;> simpa [separated, ht] using hhead

/-- A map constructor is read back entry by entry, with keys that are read as related ones. -/
theorem primary_map_reread (hnull : ∀ p ∈ entries, p.1 ≠ .literal .null)
    (h : ∀ p ∈ entries, KeyRereadsAs K p.1 ∧ RereadsAs R p.2) : ∃ entries', Reads parsePrimary
      (enclosed .openBrace .closeBrace (separated (entries.map entryTokens)) ++ rest)
        (.map entries') rest ∧
        List.Forall₂ (fun p p' => K p.1 p'.1 ∧ R p.2 p'.2) entries entries' := by
  obtain ⟨entries', hentries, hentries'⟩ := entries_reread rest h
  refine ⟨entries', ?_, hentries'⟩
  rw [enclosed, List.cons_append, List.append_assoc, List.singleton_append]
  refine primary_map ?_ hentries
  -- The parser looks for the word of a comprehension in front of the first key, which is never that
  -- word.
  cases entries with
  | nil => simp [separated]
  | cons p more =>
    have hhead : ((entryTokens p).head? ≠ some (.name "for")) ∧ entryTokens p ≠ [] := by
      rw [entryTokens]
      rcases key_head p.1 with ⟨b, hb⟩ | hnull' | ⟨t, ts, heq, ht⟩
      · rw [hb]
        have hword : toString b ≠ "for" := by cases b <;> decide
        exact ⟨by simpa [groupedIf, isBareKey, tokens, Value.tokens] using hword,
          by simp [groupedIf, isBareKey, tokens, Value.tokens]⟩
      · exact absurd hnull' (hnull p (by simp))
      · rw [heq]
        exact ⟨by simpa using ht "for", by simp⟩
    rw [List.head?_append_of_ne_nil]
    · cases more with
      | nil => exact hhead.1
      | cons p₁ more =>
        rw [List.map_cons, List.map_cons, separated_cons_cons,
          List.head?_append_of_ne_nil _ hhead.2]
        exact hhead.1
    · cases more <;> simp [separated, hhead.2]

/-- A call is read back argument by argument, if its name is no word that stands for a value. -/
theorem primary_call_reread {name : String} (hname : ¬isKeyword name)
    (h : ∀ e ∈ items, RereadsAs R e) : ∃ items', Reads parsePrimary
      (.name name :: enclosed .openParen .closeParen (separated (items.map tokens)) ++ rest)
        (.call name items') rest ∧ List.Forall₂ R items items' := by
  obtain ⟨items', hitems, hitems'⟩ := items_reread rest (.inl rfl) h
  refine ⟨items', ?_, hitems'⟩
  rw [enclosed, List.cons_append, List.cons_append, List.append_assoc, List.singleton_append]
  exact primary_call hname hitems

/-- An entry with a truth value as its key is read with a text as its key. -/
theorem primary_map_equivalent
    (h : ∀ p ∈ entries, Reread p.1 ∧ p.1 ≠ .literal .null ∧ Reread p.2) : ∃ entries',
      Reads parsePrimary
        (enclosed .openBrace .closeBrace (separated (entries.map entryTokens)) ++ rest)
          (.map entries') rest ∧ Equivalent (.map entries) (.map entries') := by
  obtain ⟨entries', hreads, hentries'⟩ := primary_map_reread rest (fun p hp => (h p hp).2.1)
    fun p hp => by
      obtain ⟨hkey, hnull, he⟩ := h p hp
      refine ⟨key_reread hkey.whole hnull (fun b hb context location => ?_)
        (fun _ => Equivalent.sameKey), he.whole⟩
      simp [hb, Value.text?]
  exact ⟨entries', hreads, .map hentries'⟩

end Constructors

/-! ## Templates -/

section Templates

attribute [local simp] renderParts parseTemplate

theorem textPart_eq {s : String} (h : s ≠ "") : textPart s = [.text s] := by
  rw [textPart, if_neg (by simpa using h)]

/-- A text whose tokens are read as an expression is that expression. -/
theorem parseText_of_spelled {s : List Char} {ts : List Token} {e : Expr}
    (hs : Spelled Boundary s ts) (h : Reads parseConditional (ts ++ [.eof]) e [.eof]) :
    parseText s = .ok e := by
  have hlexes : Token.Lexes s (ts ++ [.eof]) := by
    simpa using hs.lexes [] [.eof] trivial .nil
  exact parseText_eq hlexes h

/-- The text of an interpolated expression is cut out of a template. -/
theorem closing_interpolation {s : List Char} {ts : List Token} (h : Spelled Boundary s ts)
    (tail : List Char) : Template.closing .braces [] (s ++ '\x7d' :: tail) = some s.length := by
  rw [h.skips, Template.closing, Option.map_some, Nat.zero_add]

/-- An interpolation is read up to its closing brace. -/
theorem parseTemplate_interpolation (inQuotes : Bool) (position : Nat) (literal : String)
    {s tail : List Char} {e : Expr}
    (hclosing : Template.closing .braces [] (s ++ '\x7d' :: tail) = some s.length)
    (hparse : parseText s = .ok e) :
    ∃ next, parseTemplate inQuotes position literal ('$' :: '\x7b' :: (s ++ '\x7d' :: tail)) =
      (parseTemplate inQuotes next "" tail).map (textPart literal ++ .interpolation e :: ·) := by
  have hdrop : (s ++ '\x7d' :: tail).drop (s.length + 1) = tail := by
    rw [← List.drop_drop, List.drop_left, List.drop_one, List.tail_cons]
  refine ⟨position + 2 + Text.utf8Length s + 1, ?_⟩
  rw [parseTemplate]
  split
  · rename_i heq
    rw [hclosing] at heq
    cases heq
  · rename_i n heq
    obtain rfl : s.length = n := Option.some.inj (hclosing.symm.trans heq)
    rw [List.take_left, hparse, hdrop]
    rfl

/-- A template that is one interpolation. -/
theorem parse_interpolation {text : String} {s : List Char} {e : Expr}
    (htext : text.toList = '$' :: '\x7b' :: (s ++ ['\x7d']))
    (hclosing : Template.closing .braces [] (s ++ ['\x7d']) = some s.length)
    (hparse : parseText s = .ok e) (inQuotes : Bool) :
    Template.parse text inQuotes = .ok [.interpolation e] := by
  obtain ⟨next, hnext⟩ := parseTemplate_interpolation inQuotes 0 "" hclosing hparse
  rw [Template.parse, htext, hnext, parseTemplate]
  rfl

/-- A template is read from its text as a related one. -/
theorem parseTemplate_renderParts (inQuotes : Bool) {P : Part Expr → Part Expr → Prop}
    (htext : ∀ s, P (.text s) (.text s)) {parts : Template} (hparts : parts.Separated)
    (h : ∀ e, .interpolation e ∈ parts → Spelled Boundary e.render.toList e.tokens ∧
      RereadsAs (fun e e' => P (.interpolation e) (.interpolation e')) e)
    (position : Nat) (literal : String)
    (hliteral : literal ≠ "" → ∀ s rest, parts ≠ .text s :: rest) :
    ∃ parts', parseTemplate inQuotes position literal (renderParts inQuotes parts).toList =
      .ok (textPart literal ++ parts') ∧ List.Forall₂ P parts parts' := by
  -- By induction on the parts. The text collected so far is carried along, since the reader puts it
  -- in front of the next interpolation.
  induction parts generalizing position literal with
  | nil =>
    refine ⟨[], ?_, .nil⟩
    rw [renderParts, String.toList_empty, parseTemplate, List.append_nil]
  | cons part rest ih =>
    have hrest := fun hseparated => ih hseparated fun e he => h e (List.mem_cons_of_mem _ he)
    cases part with
    | text s =>
      obtain ⟨hne, hends, hseparated⟩ := hparts
      -- Two texts never stand side by side, so nothing has been collected here.
      obtain rfl : literal = "" := by
        by_contra hliteral'
        exact hliteral hliteral' s rest rfl
      have hfollows := follows_renderParts inQuotes hends (Template.Follows.nil s.toList)
      rw [List.append_nil] at hfollows
      obtain ⟨next, hnext⟩ := parseTemplate_written inQuotes position "" hfollows
      obtain ⟨parts', hparse, hparts'⟩ := hrest hseparated next s (fun _ t rest' heq => by
        subst heq
        exact hends)
      refine ⟨.text s :: parts', ?_, .cons (htext s) hparts'⟩
      rw [renderParts, String.toList_append, Template.written_toList, hnext, String.ofList_toList,
        String.empty_append, hparse, textPart_eq hne]
      rfl
    | interpolation e =>
      obtain ⟨hspelled, hrereads⟩ := h e (by simp)
      obtain ⟨e', hreads, he'⟩ := hrereads [.eof] .eof
      obtain ⟨next, hnext⟩ := parseTemplate_interpolation inQuotes position literal
        (closing_interpolation hspelled (renderParts inQuotes rest).toList)
        (parseText_of_spelled hspelled hreads)
      obtain ⟨parts', hparse, hparts'⟩ := hrest hparts next "" (fun hne => absurd rfl hne)
      refine ⟨.interpolation e' :: parts', ?_, .cons he' hparts'⟩
      rw [renderParts_interpolation, hnext, hparse]
      rfl

/-- The parts of a template are read back as equivalent ones. -/
theorem parseTemplate_equivalent (inQuotes : Bool) {parts : Template} (hparts : parts.Separated)
    (h : ∀ e, .interpolation e ∈ parts →
      Spelled Boundary e.render.toList e.tokens ∧ Rereads e) :
    ∃ parts', parseTemplate inQuotes 0 "" (renderParts inQuotes parts).toList = .ok parts' ∧
      List.Forall₂ SamePart parts parts' :=
  parseTemplate_renderParts inQuotes SamePart.text hparts
    (fun e he => ⟨(h e he).1, RereadsAs.mono (h e he).2 fun _ => SamePart.interpolation⟩) 0 ""
    fun hne => absurd rfl hne

end Templates

/-! ## Literals -/

/-- A negative number is read as a negation, which has no accesses, either. -/
theorem negative_reread {n m : Number} {spelling : String} (h : Number.parse? spelling = some m)
    (hn : m.negate = .ok n) :
    ReadsObject [.symbol .minus, .number spelling] (.literal (.number n)) := by
  intro ts e₁ rest haccessed hrest
  obtain ⟨e₂, haccessed'⟩ := haccessed.behind (o := .literal (.number m)) (by simp)
  obtain ⟨e', haccesses, he'⟩ := haccessed'.reads (.refl _) hrest
  have hoperand := unary_of_primary (primary_number h) haccesses (by simp) (by simp)
  have hunary := Reads.unary .neg hoperand
  refine ⟨.unary .neg e', hunary, fun context location => ?_⟩
  rcases haccessed.of_number with ⟨rfl, rfl⟩ | hnone
  · cases haccessed'
    exact (equivalent_neg hn).trans (he'.unary .neg) context location
  · rcases haccessed'.of_number with ⟨rfl, rfl⟩ | hnone'
    · cases haccessed
      exact absurd (hnone context location) (by simp)
    · rw [hnone, value?_neg, ← he' context location, hnone']
      rfl

/-- A legible number is read back, a negative one as a negation. -/
theorem number_reread {n : Number} (h : n.Legible) :
    ReadsObject n.tokens (.literal (.number n)) := by
  have hwritten := h.written
  unfold Number.tokens
  generalize (n.write .expression).toList = text at hwritten ⊢
  cases hwritten with
  | positive number reads =>
    obtain ⟨c, rest, rfl, hc⟩ := number.head
    split
    · rename_i heq
      rw [(List.cons.inj heq).1] at hc
      cases hc
    · exact .of_primary (by simp) (by simp) fun rest => ⟨_, primary_number reads, .refl _⟩
  | negative number reads negates => exact negative_reread reads negates

/-- The quoted form of a text is read as that text alone. -/
theorem parse_quoted (s : String) :
    parseTemplate true 0 "" (Template.quoted s).toList = .ok (textPart s) := by
  obtain ⟨next, hnext⟩ := parseTemplate_written true 0 "" (Template.Follows.nil s.toList)
  rw [List.append_nil, ← Template.written_toList, String.ofList_toList,
    String.empty_append] at hnext
  rw [if_pos rfl] at hnext
  rw [hnext, parseTemplate]

/-- A template of one text, or of nothing, is the literal text. -/
theorem ofTemplate_textPart (s : String) : ofTemplate (textPart s) = .literal (.text s) := by
  by_cases h : s = ""
  · subst h
    rfl
  · rw [textPart_eq h]
    simp [ofTemplate, Template.literal?]

/-- Every text is read back as itself. -/
theorem text_reread (s : String) : Reread (.literal (.text s)) := by
  refine .of_object (.of_primary (by simp [Token.ofText]) (by simp [Token.ofText]) fun rest => ?_)
  exact ⟨_, ofTemplate_textPart s ▸ primary_quoted (parse_quoted s), .refl _⟩

/-- A legible value is read back as a literal or as the constructor of its items or entries. -/
theorem literal_reread {v : Value} (h : v.Legible) : Reread (.literal v) := by
  induction v with
  | null => exact .of_object (.of_primary (by simp) (by simp) fun _ => ⟨_, primary_null, .refl _⟩)
  | bool b =>
    exact .of_object (.of_primary (by simp) (by simp) fun _ => ⟨_, primary_bool b, .refl _⟩)
  | number n =>
    cases h with
    | number h => exact .of_object (number_reread h)
  | text s => exact text_reread s
  | list items ih =>
    cases h with
    | list h =>
      have hitems : ∀ e ∈ items.map literal, Reread e := by simpa using fun v hv => ih v hv (h v hv)
      -- An item that is a value never starts with the word of a comprehension.
      have hfor : ∀ e ∈ (items.map literal).head?, e.tokens.head? ≠ some (.name "for") := by
        intro e he
        rw [List.head?_map, Option.mem_def, Option.map_eq_some_iff] at he
        obtain ⟨v, -, rfl⟩ := he
        exact literal_head_ne v
      refine .of_object (.of_primary (by simp) (by simp) fun rest => ?_)
      obtain ⟨items', hreads, hitems'⟩ :=
        primary_list_reread rest hfor fun e he => (hitems e he).whole
      refine ⟨.list items', ?_, (equivalent_list items).trans (.list hitems')⟩
      rw [List.map_map] at hreads
      rw [Value.tokensOfItems_eq_map]
      exact hreads
  | map entries ih =>
    cases h with
    | map nodup h =>
      have hentries : ∀ p ∈ entries.map fun entry => (literal (.text entry.1), literal entry.2),
          Reread p.1 ∧ p.1 ≠ .literal .null ∧ Reread p.2 := by
        intro p hp
        obtain ⟨entry, hentry, rfl⟩ := List.mem_map.mp hp
        exact ⟨text_reread entry.1, by simp, ih _ _ hentry (h _ _ hentry)⟩
      refine .of_object (.of_primary (by simp) (by simp) fun rest => ?_)
      obtain ⟨entries', hreads, hentries'⟩ := primary_map_equivalent rest hentries
      refine ⟨.map entries', ?_, (equivalent_map nodup).trans hentries'⟩
      rw [List.map_map] at hreads
      rw [Value.tokensOfEntries_eq_map]
      exact hreads

/-! ## Expressions -/

/-- The tokens of a readable expression are read as an equivalent one. -/
theorem reread {e : Expr} (h : e.Everywhere Readable) : Reread e := by
  -- By induction on the expression. What has operators goes through its operands, everything else
  -- is a primary.
  induction e with
  | literal v =>
    obtain ⟨here, -⟩ := h
    exact literal_reread here
  | template parts ih =>
    obtain ⟨here, below⟩ := h
    obtain ⟨parts', hparse, hparts'⟩ := parseTemplate_equivalent true here fun e he =>
      have hbelow := below e (List.mem_flatMap.mpr ⟨_, he, by simp⟩)
      ⟨(cut_of_readable hbelow).spelled, (ih e he hbelow).whole⟩
    refine .of_object (.of_primary (by simp) (by simp) fun rest => ?_)
    exact ⟨_, primary_quoted hparse,
      (Equivalent.template hparts').trans (equivalent_ofTemplate parts')⟩
  | reference r =>
    obtain ⟨⟨⟨-, hroot⟩, -⟩, -⟩ := h
    refine .of_object fun ts e₁ rest haccessed hrest => ?_
    -- The attributes behind the reference become part of it, and only what stands behind them is an
    -- access.
    obtain ⟨names, ts₁, e₂, rfl, hname, haccessed', he₂⟩ :=
      haccessed.of_reference (.refl _) (fun _ => rfl) hrest
    obtain ⟨e', haccesses, he'⟩ := haccessed'.reads he₂ hrest
    have hprimary := primary_reference hroot (r.path ++ names) hname (haccessed'.head_ne hrest)
    refine ⟨e', ?_, he'⟩
    have hreads := unary_of_primary hprimary haccesses (by simp) (by simp)
    simpa [tokens] using hreads
  | list items ih =>
    obtain ⟨here, below⟩ := h
    refine .of_object (.of_primary (by simp) (by simp) fun rest => ?_)
    obtain ⟨items', hreads, hitems'⟩ :=
      primary_list_reread rest here fun e he => (ih e he (below e he)).whole
    exact ⟨.list items', by rwa [← tokensOfItems_eq_map] at hreads, .list hitems'⟩
  | map entries ih =>
    obtain ⟨here, below⟩ := h
    refine .of_object (.of_primary (by simp) (by simp) fun rest => ?_)
    have hentries : ∀ p ∈ entries, Reread p.1 ∧ p.1 ≠ .literal .null ∧ Reread p.2 := by
      intro p hp
      obtain ⟨ihk, ihe⟩ := ih p.1 p.2 hp
      exact ⟨ihk (below _ (List.mem_flatMap.mpr ⟨p, hp, by simp⟩)), here p hp,
        ihe (below _ (List.mem_flatMap.mpr ⟨p, hp, by simp⟩))⟩
    obtain ⟨entries', hreads, hentries'⟩ := primary_map_equivalent rest hentries
    exact ⟨.map entries', by rwa [← tokensOfEntries_eq_map] at hreads, hentries'⟩
  | access object name ih =>
    obtain ⟨here, below⟩ := h
    have hobject := (ih (below object (by simp [children]))).operand
    refine .of_object fun ts e₁ rest haccessed hrest => ?_
    obtain ⟨e', hreads, he'⟩ := hobject _ _ rest (.name here.2 haccessed) hrest
    exact ⟨e', by simpa [tokens, operandTokens] using hreads, he'⟩
  | index object key ih ihk =>
    obtain ⟨-, below⟩ := h
    have hobject := (ih (below object (by simp [children]))).operand
    have hkey := (ihk (below key (by simp [children]))).whole
    refine .of_object fun ts e₁ rest haccessed hrest => ?_
    obtain ⟨e', hreads, he'⟩ := hobject _ _ rest (.index hkey haccessed) hrest
    exact ⟨e', by simpa [tokens, operandTokens] using hreads, he'⟩
  | unary op operand ih =>
    obtain ⟨-, below⟩ := h
    exact unary_reread op (ih (below operand (by simp [children])))
  | binary op left right ihl ihr =>
    obtain ⟨-, below⟩ := h
    exact binary_reread op (ihl (below left (by simp [children])))
      (ihr (below right (by simp [children])))
  | conditional condition yes no ih ihy ihn =>
    obtain ⟨-, below⟩ := h
    exact conditional_reread (ih (below condition (by simp [children])))
      (ihy (below yes (by simp [children]))) (ihn (below no (by simp [children])))
  | call name args ih =>
    obtain ⟨⟨-, hname⟩, below⟩ := h
    refine .of_object (.of_primary (by simp) (by simp) fun rest => ?_)
    obtain ⟨args', hreads, hargs'⟩ :=
      primary_call_reread rest hname fun e he => (ih e he (below e he)).whole
    exact ⟨.call name args', by rwa [← tokensOfItems_eq_map] at hreads, .call name hargs'⟩

/-- The text of a readable expression is read as an equivalent expression. -/
theorem parse_render {e : Expr} (h : e.Everywhere Readable) :
    ∃ e', parse e.render = .ok e' ∧ Equivalent e e' := by
  obtain ⟨e', hreads, he'⟩ := (reread h).whole [.eof] .eof
  exact ⟨e', parseText_of_spelled (cut_of_readable h).spelled hreads, he'⟩

end Deployment.Expr
