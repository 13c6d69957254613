import Deployment.Expr.Parser
import Deployment.Proofs.Syntax.Lexing
import Deployment.Proofs.Syntax.Tokens

/-! # What the parser reads

`Reads parse ts v rest` says that a parser reads the value `v` from the tokens `ts` and leaves the
tokens `rest`. Positions and the weights behind which the parser hides its termination are left out.
For every function of the parser there are rules that say what it reads in terms of what the
functions it calls read, one for each way through it that succeeds.
-/

namespace Deployment

/-- The levels of the operators are those the parser goes through before it reads an operand. -/
theorem BinaryOp.level_lt (op : BinaryOp) : op.level < 6 := by
  cases op with
  | arithmetic op => cases op <;> decide
  | _ => simp [BinaryOp.level]

namespace Expr

open Token (Lexes separated enclosed)

/-- The parser reads the value from the tokens and leaves the others. -/
def Reads {α : Type} {bound : List Spanned → Nat}
    (parse : ∀ tokens : List Spanned, Except ParseError (Parsed α (bound tokens)))
    (ts : List Token) (v : α) (rest : List Token) : Prop :=
  ∀ spanned : List Spanned, spanned.map Spanned.token = ts →
    ∃ left, left.map Spanned.token = rest ∧ ∃ h, parse spanned = .ok ⟨v, left, h⟩

/-- A mapped result is a success exactly through a success. -/
theorem Except.map_eq_ok {ε α β : Type} {r : Except ε α} {f : α → β} {b : β}
    (h : r.map f = .ok b) : ∃ a, r = .ok a ∧ f a = b := by
  cases r with
  | error e => cases h
  | ok a => exact ⟨a, rfl, Except.ok.inj h⟩

/-! ## Single tokens -/

/-- Tokens with positions are known up to those positions. -/
theorem cases_of_map_eq_cons {spanned : List Spanned} {t : Token} {ts : List Token}
    (h : spanned.map Spanned.token = t :: ts) :
    ∃ position left, spanned = ⟨t, position⟩ :: left ∧ left.map Spanned.token = ts := by
  obtain ⟨⟨token, position⟩, left, rfl, rfl, hleft⟩ := List.map_eq_cons_iff.mp h
  exact ⟨position, left, rfl, hleft⟩

theorem eat?_cons (s : Symbol) (position : Nat) (left : List Spanned) :
    ∃ h, eat? s (⟨.symbol s, position⟩ :: left) = some ⟨left, h⟩ := by
  simp [eat?, Token.weight]

/-- A symbol that does not come next is not eaten. -/
theorem eat?_eq_none {s : Symbol} {spanned : List Spanned}
    (h : (spanned.map Spanned.token).head? ≠ some (.symbol s)) : eat? s spanned = none := by
  unfold eat?
  split
  · rw [if_neg]
    rintro rfl
    exact h rfl
  · rfl

theorem expect_cons (s : Symbol) (position : Nat) (left : List Spanned) :
    ∃ h, expect s (⟨.symbol s, position⟩ :: left) = .ok ⟨left, h⟩ := by
  obtain ⟨h, heq⟩ := eat?_cons s position left
  exact ⟨h, by rw [expect, heq]⟩

/-- What comes next is the first token, or the end behind all of them. -/
theorem peek_eq {spanned : List Spanned} {ts : List Token}
    (h : spanned.map Spanned.token = ts) : peek spanned = ts.head?.getD .eof := by
  subst h
  cases spanned <;> rfl

/-- No operator of the level comes next. -/
def NoOperator (level : Nat) (ts : List Token) : Prop :=
  ∀ s op, ts.head? = some (.symbol s) → operatorOf? s = some op → op.level ≠ level

/-- At a level without an operator the parser goes on to the next one. -/
theorem operatorAt?_eq_none {level : Nat} {spanned : List Spanned}
    (h : NoOperator level (spanned.map Spanned.token)) : operatorAt? level spanned = none := by
  unfold operatorAt?
  split
  · rename_i s position rest
    split
    · rename_i op hop
      rw [if_neg (h s op rfl hop)]
    · rfl
  · rfl

/-- The symbol of an operator is read as that operator. -/
theorem operatorOf?_token (op : BinaryOp) : operatorOf? op.token = some op := by
  cases op with
  | order op => cases op <;> rfl
  | arithmetic op => cases op <;> rfl
  | _ => rfl

/-- An operator is none of the symbols that are no operators. -/
theorem operator_not_mem (op : BinaryOp) {symbols : List Symbol}
    (h : ∀ s ∈ symbols, operatorOf? s = none) : op.token ∉ symbols := fun hmem =>
  absurd (operatorOf?_token op) (by simp [h _ hmem])

/-- At the level of an operator its symbol is read as that operator. -/
theorem operatorAt?_cons (op : BinaryOp) (position : Nat) (left : List Spanned) :
    ∃ h, operatorAt? op.level (⟨.symbol op.token, position⟩ :: left) = some ⟨op, left, h⟩ := by
  simp [operatorAt?, operatorOf?_token, Token.weight]

/-- An operator is one of its own level only. -/
theorem noOperator_cons {op : BinaryOp} {level : Nat} {ts : List Token} (h : op.level ≠ level) :
    NoOperator level (.symbol op.token :: ts) := by
  intro s op' hs hop
  obtain rfl : op.token = s := by simpa using hs
  obtain rfl : op = op' := by simpa [operatorOf?_token] using hop
  exact h

section Rules

attribute [local simp] parseTemplate parseText parseConditional parseBinary parseOperators
  parseUnary parseAccesses parsePrimary parseItems parseEntries

namespace Reads

variable {ts ts₁ ts₂ rest : List Token} {e e₁ e₂ e₃ : Expr}

/-! ## Conditionals and operators -/

/-- Without a question mark behind it, an operator expression is the whole. -/
theorem conditional_of_binary (h : Reads (parseBinary 0) ts e rest)
    (hrest : rest.head? ≠ some (.symbol .question)) : Reads parseConditional ts e rest := by
  rintro spanned hspanned
  obtain ⟨left, rfl, hlt, heq⟩ := h spanned hspanned
  refine ⟨left, rfl, hlt, ?_⟩
  rw [parseConditional, heq]
  simp only [bind, Except.bind, eat?_eq_none hrest]

/-- A condition and two branches, each of which may itself be a conditional. -/
theorem conditional (h : Reads (parseBinary 0) ts e₁ (.symbol .question :: ts₁))
    (h₁ : Reads parseConditional ts₁ e₂ (.symbol .colon :: ts₂))
    (h₂ : Reads parseConditional ts₂ e₃ rest) :
    Reads parseConditional ts (.conditional e₁ e₂ e₃) rest := by
  rintro spanned hspanned
  obtain ⟨_, hmap, hlt, heq⟩ := h spanned hspanned
  obtain ⟨position, left, rfl, hleft⟩ := cases_of_map_eq_cons hmap
  obtain ⟨hlt₁, heat⟩ := eat?_cons .question position left
  obtain ⟨_, hmap₁, hlt₂, heq₁⟩ := h₁ left hleft
  obtain ⟨position₁, left₁, rfl, hleft₁⟩ := cases_of_map_eq_cons hmap₁
  obtain ⟨hlt₃, hexpect⟩ := expect_cons .colon position₁ left₁
  obtain ⟨left₂, hleft₂, hlt₄, heq₂⟩ := h₂ left₁ hleft₁
  refine ⟨left₂, hleft₂, by omega, ?_⟩
  rw [parseConditional, heq]
  simp only [bind, Except.bind, heat, heq₁, hexpect, heq₂]

/-- A level reads what the next level reads and then goes on with its own operators. -/
theorem binary_level {level : Nat} (hlevel : level < 6)
    (h : Reads (parseBinary (level + 1)) ts e ts₁)
    (h₁ : Reads (parseOperators level e) ts₁ e₁ rest) : Reads (parseBinary level) ts e₁ rest := by
  rintro spanned hspanned
  obtain ⟨left, hmap, hlt, heq⟩ := h spanned hspanned
  obtain ⟨left₁, rfl, hlt₁, heq₁⟩ := h₁ left hmap
  refine ⟨left₁, rfl, by dsimp only at hlt₁; omega, ?_⟩
  rw [parseBinary, if_pos hlevel, heq]
  simp only [bind, Except.bind, heq₁, Parsed.widen]

/-- The loop of a level ends where none of its operators comes next. -/
theorem operators_nil {level : Nat} (h : NoOperator level ts) :
    Reads (parseOperators level e) ts e ts := by
  rintro spanned rfl
  refine ⟨spanned, rfl, Nat.lt_succ_self _, ?_⟩
  rw [parseOperators, operatorAt?_eq_none h]

/-- The loop takes one operator and one operand of the next level and goes on with both put
together, which groups equal levels to the left. -/
theorem operators_cons {op : BinaryOp} (h : Reads (parseBinary (op.level + 1)) ts e₁ ts₁)
    (h₁ : Reads (parseOperators op.level (.binary op e e₁)) ts₁ e₂ rest) :
    Reads (parseOperators op.level e) (.symbol op.token :: ts) e₂ rest := by
  rintro spanned hspanned
  obtain ⟨position, left, rfl, hmap⟩ := cases_of_map_eq_cons hspanned
  obtain ⟨hlt, hop⟩ := operatorAt?_cons op position left
  obtain ⟨left₁, hmap₁, hlt₁, heq₁⟩ := h left hmap
  obtain ⟨left₂, rfl, hlt₂, heq₂⟩ := h₁ left₁ hmap₁
  refine ⟨left₂, rfl, by dsimp only at hlt₂ ⊢; omega, ?_⟩
  rw [parseOperators, hop]
  simp only [bind, Except.bind, heq₁, heq₂, Parsed.widen]

/-- An operand is what all levels read on which no operator follows. -/
theorem descend {j k : Nat} (hjk : j ≤ k) (hk : k ≤ 6) (h : Reads (parseBinary k) ts e rest)
    (hrest : ∀ level, j ≤ level → level < k → NoOperator level rest) :
    Reads (parseBinary j) ts e rest := by
  induction k with
  | zero =>
    obtain rfl : j = 0 := by omega
    exact h
  | succ k ih =>
    rcases Nat.lt_or_ge k j with hlt | hge
    · obtain rfl : j = k + 1 := by omega
      exact h
    · refine ih hge (by omega) ?_ fun level hj hlt => hrest level hj (by omega)
      exact binary_level hk h (operators_nil (hrest k hge (by omega)))

/-- An operand without operators behind it is read at every level. -/
theorem binary_of_unary (level : Nat) (hlevel : level ≤ 6) (h : Reads parseUnary ts e rest)
    (hrest : ∀ k, level ≤ k → NoOperator k rest) : Reads (parseBinary level) ts e rest := by
  refine descend hlevel (Nat.le_refl 6) ?_ fun k hk _ => hrest k hk
  rintro spanned hspanned
  obtain ⟨left, rfl, hlt, heq⟩ := h spanned hspanned
  refine ⟨left, rfl, hlt, ?_⟩
  rw [parseBinary, if_neg (by decide), heq]

/-- One operator between two operands is read at its own level, whatever the level is. -/
theorem binary {op : BinaryOp} (h : Reads parseUnary ts e₁ (.symbol op.token :: ts₁))
    (h₁ : Reads parseUnary ts₁ e₂ rest) (hrest : ∀ k, NoOperator k rest) :
    Reads (parseBinary 0) ts (.binary op e₁ e₂) rest := by
  have hlevel : op.level < 6 := op.level_lt
  refine descend (k := op.level) (Nat.zero_le _) (by omega) ?_ fun k _ _ => hrest k
  -- Above its own level the operator ends the left operand.
  have hleft : Reads (parseBinary (op.level + 1)) ts e₁ (.symbol op.token :: ts₁) :=
    binary_of_unary (op.level + 1) hlevel h fun k hk => noOperator_cons (by omega)
  have hright := binary_of_unary (op.level + 1) hlevel h₁ fun k _ => hrest k
  exact binary_level hlevel hleft (operators_cons hright (operators_nil (hrest op.level)))

/-- An operator in front of an operand, which may have one of its own. -/
theorem unary (op : UnaryOp) (h : Reads parseUnary ts e rest) :
    Reads parseUnary (.symbol op.token :: ts) (.unary op e) rest := by
  rintro spanned hspanned
  obtain ⟨position, left, rfl, hmap⟩ := cases_of_map_eq_cons hspanned
  obtain ⟨left₁, rfl, hlt, heq⟩ := h left hmap
  -- The parser tries one symbol after the other, so the second one has to fail the first test.
  cases op with
  | not =>
    obtain ⟨hlt₁, heat⟩ := eat?_cons .not position left
    refine ⟨left₁, rfl, by simp [Token.weight]; omega, ?_⟩
    rw [parseUnary, UnaryOp.token, heat]
    simp only [bind, Except.bind, heq]
  | neg =>
    obtain ⟨hlt₁, heat⟩ := eat?_cons .minus position left
    have hnone : eat? .not (⟨.symbol .minus, position⟩ :: left) = none :=
      eat?_eq_none (by simp)
    refine ⟨left₁, rfl, by simp [Token.weight]; omega, ?_⟩
    rw [parseUnary, UnaryOp.token, hnone, heat]
    simp only [bind, Except.bind, heq]

/-- A primary with the accesses behind it, if no operator stands in front. -/
theorem unary_of_primary (h : Reads parsePrimary ts e ts₁)
    (h₁ : Reads (parseAccesses e) ts₁ e₁ rest) (hnot : ts.head? ≠ some (.symbol .not))
    (hminus : ts.head? ≠ some (.symbol .minus)) : Reads parseUnary ts e₁ rest := by
  rintro spanned hspanned
  obtain ⟨left, hmap, hlt, heq⟩ := h spanned hspanned
  obtain ⟨left₁, rfl, hlt₁, heq₁⟩ := h₁ left hmap
  subst hspanned
  refine ⟨left₁, rfl, by dsimp only at hlt₁; omega, ?_⟩
  rw [parseUnary, eat?_eq_none hnot, eat?_eq_none hminus]
  simp only [bind, Except.bind, heq, heq₁, Parsed.widen]

/-! ## Accesses -/

/-- Neither an access nor a call goes on here. -/
def Ended (ts : List Token) : Prop :=
  ts.head? ≠ some (.symbol .dot) ∧ ts.head? ≠ some (.symbol .openBracket) ∧
    ts.head? ≠ some (.symbol .openParen)

theorem Ended.symbol {s : Symbol} (hs : s ∉ [.dot, .openBracket, .openParen])
    (ts : List Token) : Ended (.symbol s :: ts) := by
  refine ⟨?_, ?_, ?_⟩ <;> rintro heq <;> cases heq <;> simp at hs

/-- An operator ends the accesses in front of it. -/
theorem Ended.operator (op : BinaryOp) (ts : List Token) : Ended (.symbol op.token :: ts) :=
  .symbol (operator_not_mem op (by decide)) ts

/-- The loop of accesses ends where neither a dot nor a bracket comes next. -/
theorem accesses_nil (h : Ended ts) : Reads (parseAccesses e) ts e ts := by
  rintro spanned rfl
  refine ⟨spanned, rfl, Nat.lt_succ_self _, ?_⟩
  obtain ⟨hdot, hbracket, -⟩ := h
  rw [parseAccesses]
  all_goals
    intros
    subst_vars
    simp at hdot hbracket

/-- An attribute, and the accesses behind it. -/
theorem accesses_attribute {name : String}
    (h : Reads (parseAccesses (.attribute e name)) ts e₁ rest) :
    Reads (parseAccesses e) (.symbol .dot :: .name name :: ts) e₁ rest := by
  rintro spanned hspanned
  obtain ⟨position, left, rfl, hmap⟩ := cases_of_map_eq_cons hspanned
  obtain ⟨position₁, left₁, rfl, hmap₁⟩ := cases_of_map_eq_cons hmap
  obtain ⟨left₂, rfl, hlt, heq⟩ := h left₁ hmap₁
  have hle : Spanned.totalWeight left₂ ≤ Spanned.totalWeight left₁ := Nat.le_of_lt_succ hlt
  refine ⟨left₂, rfl, by simp only [Spanned.totalWeight_cons, Token.weight]; omega, ?_⟩
  rw [parseAccesses, heq]
  rfl

/-- An index, and the accesses behind it. A star in the brackets would be a splat. -/
theorem accesses_index (hstar : ts.head? ≠ some (.symbol .star))
    (h : Reads parseConditional ts e₁ (.symbol .closeBracket :: ts₁))
    (h₁ : Reads (parseAccesses (.index e e₁)) ts₁ e₂ rest) :
    Reads (parseAccesses e) (.symbol .openBracket :: ts) e₂ rest := by
  rintro spanned hspanned
  obtain ⟨position, left, rfl, hmap⟩ := cases_of_map_eq_cons hspanned
  obtain ⟨_, hmap₁, hlt, heq⟩ := h left hmap
  obtain ⟨position₁, left₁, rfl, hmap₂⟩ := cases_of_map_eq_cons hmap₁
  obtain ⟨hlt₁, hexpect⟩ := expect_cons .closeBracket position₁ left₁
  obtain ⟨left₂, rfl, hlt₂, heq₁⟩ := h₁ left₁ hmap₂
  -- A star would be refused before anything is read.
  have hpeek : peek left ≠ .symbol .star := by
    rw [peek_eq hmap]
    cases ts with
    | nil => simp
    | cons t ts => simpa using hstar
  have hle : Spanned.totalWeight left₂ ≤ Spanned.totalWeight left₁ := Nat.le_of_lt_succ hlt₂
  refine ⟨left₂, rfl, by simp only [Spanned.totalWeight_cons, Token.weight]; omega, ?_⟩
  rw [parseAccesses, if_neg hpeek]
  simp only [bind, Except.bind, heq, hexpect, heq₁, Parsed.widen]

/-! ## Primaries -/

theorem primary_number {spelling : String} {n : Number} (h : Number.parse? spelling = some n) :
    Reads parsePrimary (.number spelling :: rest) (.literal (.number n)) rest := by
  rintro spanned hspanned
  obtain ⟨position, left, rfl, hmap⟩ := cases_of_map_eq_cons hspanned
  refine ⟨left, hmap, by simp [Token.weight], ?_⟩
  rw [parsePrimary, parseNumber, h]
  rfl

/-- A quoted text is read as a template of its own. -/
theorem primary_quoted {content : List Char} {parts : Template}
    (h : parseTemplate true 0 "" content = .ok parts) :
    Reads parsePrimary (.quoted content :: rest) (ofTemplate parts) rest := by
  rintro spanned hspanned
  obtain ⟨position, left, rfl, hmap⟩ := cases_of_map_eq_cons hspanned
  refine ⟨left, hmap, by simp [Token.weight], ?_⟩
  rw [parsePrimary, h]
  rfl

/-- The words for the truth values are literals. -/
theorem primary_bool (b : Bool) :
    Reads parsePrimary (.name (toString b) :: rest) (.literal (.bool b)) rest := by
  rintro spanned hspanned
  obtain ⟨position, left, rfl, hmap⟩ := cases_of_map_eq_cons hspanned
  refine ⟨left, hmap, by simp [Token.weight], ?_⟩
  cases b
  · show parsePrimary (⟨.name "false", position⟩ :: left) = _
    rw [parsePrimary]
  · show parsePrimary (⟨.name "true", position⟩ :: left) = _
    rw [parsePrimary]

theorem primary_null : Reads parsePrimary (.name "null" :: rest) (.literal .null) rest := by
  rintro spanned hspanned
  obtain ⟨position, left, rfl, hmap⟩ := cases_of_map_eq_cons hspanned
  refine ⟨left, hmap, by simp [Token.weight], ?_⟩
  rw [parsePrimary]

/-- The tokens of attribute names, each behind a dot. -/
abbrev pathTokens (names : List String) : List Token :=
  names.flatMap fun name => [.symbol .dot, .name name]

/-- No attribute name comes next. -/
def NoName (ts : List Token) : Prop :=
  ∀ name rest, ts ≠ .symbol .dot :: .name name :: rest

/-- The attributes behind a name are taken as long as they come. -/
theorem parsePath_eq {names : List String} (hrest : NoName rest) {spanned : List Spanned}
    (h : spanned.map Spanned.token = pathTokens names ++ rest) :
    (parsePath spanned).value = names ∧ (parsePath spanned).rest.map Spanned.token = rest := by
  induction names generalizing spanned with
  | nil =>
    rw [parsePath]
    · exact ⟨rfl, h⟩
    · rintro position name position' left rfl
      subst h
      exact hrest name _ rfl
  | cons name names ih =>
    obtain ⟨position, left, rfl, hmap⟩ := cases_of_map_eq_cons h
    obtain ⟨position', left', rfl, hmap'⟩ := cases_of_map_eq_cons hmap
    obtain ⟨hvalue, hleft⟩ := ih hmap'
    rw [parsePath]
    exact ⟨by rw [hvalue], hleft⟩

/-- A word that stands for a value. -/
abbrev isKeyword (name : String) : Prop :=
  name ∈ ["true", "false", "null"]

/-- A name is a reference with all attributes behind it, unless it is a word that stands for a value
or the name of a call. -/
theorem primary_reference {root : String} (hroot : ¬isKeyword root) (names : List String)
    (hrest : NoName rest) (hparen : rest.head? ≠ some (.symbol .openParen)) :
    Reads parsePrimary (.name root :: (pathTokens names ++ rest)) (.reference ⟨root, names⟩)
      rest := by
  simp only [isKeyword, List.mem_cons, List.not_mem_nil, or_false, not_or] at hroot
  rintro spanned hspanned
  obtain ⟨position, left, rfl, hmap⟩ := cases_of_map_eq_cons hspanned
  obtain ⟨hvalue, hleft⟩ := parsePath_eq hrest hmap
  -- The parser asks for the parenthesis of a call behind the name itself, not behind the path.
  have hnone : eat? .openParen left = none := by
    refine eat?_eq_none ?_
    rw [hmap]
    cases names with
    | nil => exact hparen
    | cons name names => simp
  refine ⟨(parsePath left).rest, hleft, ?_, ?_⟩
  · have := (parsePath left).lt
    simp only [Spanned.totalWeight_cons, Token.weight]
    omega
  · rw [parsePrimary, hnone]
    · simp only [hvalue]
    · exact hroot.1
    · exact hroot.2.1
    · exact hroot.2.2

/-- A name in front of a parenthesis is a call. -/
theorem primary_call {name : String} (hname : ¬isKeyword name) {args : List Expr}
    (h : Reads (parseItems .closeParen) ts args rest) :
    Reads parsePrimary (.name name :: .symbol .openParen :: ts) (.call name args) rest := by
  simp only [isKeyword, List.mem_cons, List.not_mem_nil, or_false, not_or] at hname
  rintro spanned hspanned
  obtain ⟨position, left, rfl, hmap⟩ := cases_of_map_eq_cons hspanned
  obtain ⟨position', left, rfl, hmap'⟩ := cases_of_map_eq_cons hmap
  obtain ⟨hlt, heat⟩ := eat?_cons .openParen position' left
  obtain ⟨left', rfl, hlt', heq⟩ := h left hmap'
  refine ⟨left', rfl, by simp only [Spanned.totalWeight_cons, Token.weight]; omega, ?_⟩
  rw [parsePrimary, heat]
  · simp only [bind, Except.bind, heq]
  · exact hname.1
  · exact hname.2.1
  · exact hname.2.2

/-- Parentheses leave no trace in the expression. -/
theorem primary_parens (h : Reads parseConditional ts e (.symbol .closeParen :: rest)) :
    Reads parsePrimary (.symbol .openParen :: ts) e rest := by
  rintro spanned hspanned
  obtain ⟨position, left, rfl, hmap⟩ := cases_of_map_eq_cons hspanned
  obtain ⟨_, hmap₁, hlt, heq⟩ := h left hmap
  obtain ⟨position₁, left₁, rfl, hmap₂⟩ := cases_of_map_eq_cons hmap₁
  obtain ⟨hlt₁, hexpect⟩ := expect_cons .closeParen position₁ left₁
  refine ⟨left₁, hmap₂, by simp only [Spanned.totalWeight_cons, Token.weight]; omega, ?_⟩
  rw [parsePrimary]
  simp only [bind, Except.bind, heq, hexpect]

/-- Without its first word there is no comprehension. -/
theorem startsFor_eq_false {spanned : List Spanned} (hmap : spanned.map Spanned.token = ts)
    (h : ts.head? ≠ some (.name "for")) : startsFor spanned = false := by
  rw [startsFor, peek_eq hmap]
  cases ts with
  | nil => rfl
  | cons t ts => simpa using h

/-- A bracket starts a list unless the word of a comprehension follows. -/
theorem primary_list (hfor : ts.head? ≠ some (.name "for")) {items : List Expr}
    (h : Reads (parseItems .closeBracket) ts items rest) :
    Reads parsePrimary (.symbol .openBracket :: ts) (.list items) rest := by
  rintro spanned hspanned
  obtain ⟨position, left, rfl, hmap⟩ := cases_of_map_eq_cons hspanned
  obtain ⟨left', rfl, hlt, heq⟩ := h left hmap
  refine ⟨left', rfl, by simp only [Spanned.totalWeight_cons, Token.weight]; omega, ?_⟩
  rw [parsePrimary, startsFor_eq_false hmap hfor, if_neg Bool.false_ne_true]
  simp only [bind, Except.bind, heq]

/-- A brace starts a map constructor unless the word of a comprehension follows. -/
theorem primary_map (hfor : ts.head? ≠ some (.name "for")) {entries : List (Expr × Expr)}
    (h : Reads parseEntries ts entries rest) :
    Reads parsePrimary (.symbol .openBrace :: ts) (.map entries) rest := by
  rintro spanned hspanned
  obtain ⟨position, left, rfl, hmap⟩ := cases_of_map_eq_cons hspanned
  obtain ⟨left', rfl, hlt, heq⟩ := h left hmap
  refine ⟨left', rfl, by simp only [Spanned.totalWeight_cons, Token.weight]; omega, ?_⟩
  rw [parsePrimary, startsFor_eq_false hmap hfor, if_neg Bool.false_ne_true]
  simp only [bind, Except.bind, heq]

/-! ## Items and entries -/

/-- The closing bracket ends the items, also behind a comma. -/
theorem items_nil (close : Symbol) :
    Reads (parseItems close) (.symbol close :: rest) [] rest := by
  rintro spanned hspanned
  obtain ⟨position, left, rfl, hmap⟩ := cases_of_map_eq_cons hspanned
  obtain ⟨hlt, heat⟩ := eat?_cons close position left
  refine ⟨left, hmap, hlt, ?_⟩
  rw [parseItems, heat]

/-- The last item stands in front of the closing bracket. -/
theorem items_last {close : Symbol} (hclose : close ≠ .comma ∧ close ≠ .ellipsis)
    (hts : ts.head? ≠ some (.symbol close))
    (h : Reads parseConditional ts e (.symbol close :: rest)) :
    Reads (parseItems close) ts [e] rest := by
  rintro spanned rfl
  obtain ⟨_, hmap, hlt, heq⟩ := h spanned rfl
  obtain ⟨position, left, rfl, hmap'⟩ := cases_of_map_eq_cons hmap
  obtain ⟨hlt₁, hexpect⟩ := expect_cons close position left
  have hcomma : eat? .comma (⟨.symbol close, position⟩ :: left) = none :=
    eat?_eq_none (by simpa using hclose.1)
  refine ⟨left, hmap', by omega, ?_⟩
  rw [parseItems, eat?_eq_none hts]
  simp only [bind, Except.bind, heq, peek, Token.symbol.injEq, hclose.2, and_false, if_false,
    hcomma,
    hexpect]

/-- An item and the items behind its comma. -/
theorem items_cons {close : Symbol} (hts : ts.head? ≠ some (.symbol close))
    (h : Reads parseConditional ts e (.symbol .comma :: ts₁)) {items : List Expr}
    (h₁ : Reads (parseItems close) ts₁ items rest) :
    Reads (parseItems close) ts (e :: items) rest := by
  rintro spanned rfl
  obtain ⟨_, hmap, hlt, heq⟩ := h spanned rfl
  obtain ⟨position, left, rfl, hmap'⟩ := cases_of_map_eq_cons hmap
  obtain ⟨hlt₁, heat⟩ := eat?_cons .comma position left
  obtain ⟨left', rfl, hlt₂, heq₁⟩ := h₁ left hmap'
  refine ⟨left', rfl, by omega, ?_⟩
  rw [parseItems, eat?_eq_none hts]
  simp only [bind, Except.bind, heq, peek, Token.symbol.injEq, reduceCtorEq, and_false, if_false,
    heat, heq₁]

theorem entries_nil : Reads parseEntries (.symbol .closeBrace :: rest) [] rest := by
  rintro spanned hspanned
  obtain ⟨position, left, rfl, hmap⟩ := cases_of_map_eq_cons hspanned
  obtain ⟨hlt, heat⟩ := eat?_cons .closeBrace position left
  refine ⟨left, hmap, hlt, ?_⟩
  rw [parseEntries, heat]

/-- Reads the key of an entry of a map constructor. -/
def parseKey (tokens : List Spanned) :
    Except ParseError (Parsed Expr (Spanned.totalWeight tokens)) :=
  match bareKey? tokens with
  | some key => .ok key
  | none => parseConditional tokens

/-- A name in front of an equals sign is a key as it stands. -/
theorem key_name (name : String) :
    Reads parseKey (.name name :: .symbol .assign :: rest) (.literal (.text name))
      (.symbol .assign :: rest) := by
  rintro spanned hspanned
  obtain ⟨position, left, rfl, hmap⟩ := cases_of_map_eq_cons hspanned
  obtain ⟨position', left, rfl, hmap'⟩ := cases_of_map_eq_cons hmap
  refine ⟨_, hmap, by simp [Token.weight], ?_⟩
  rw [parseKey, bareKey?]
  simp

/-- What does not start with a name is a key as an expression. -/
theorem key_expression (hts : ∀ name, ts.head? ≠ some (.name name))
    (h : Reads parseConditional ts e rest) : Reads parseKey ts e rest := by
  rintro spanned rfl
  obtain ⟨left, rfl, hlt, heq⟩ := h spanned rfl
  refine ⟨left, rfl, hlt, ?_⟩
  have hnone : bareKey? spanned = none := by
    unfold bareKey?
    split
    · exact absurd rfl (hts _)
    · rfl
  rw [parseKey, hnone, heq]

/-- An entry and the entries behind it. A comma between them is skipped. -/
theorem entries_cons (hts : ts.head? ≠ some (.symbol .closeBrace))
    (h : Reads parseKey ts e (.symbol .assign :: ts₁)) {entries : List (Expr × Expr)}
    (h₁ : Reads parseConditional ts₁ e₁ ts₂)
    (h₂ : ∃ ts₃, (ts₂ = .symbol .comma :: ts₃ ∨ ts₂ = ts₃ ∧ ts₃.head? ≠ some (.symbol .comma)) ∧
      Reads parseEntries ts₃ entries rest) :
    Reads parseEntries ts ((e, e₁) :: entries) rest := by
  rintro spanned rfl
  obtain ⟨_, hmap, hlt, heq⟩ := h spanned rfl
  obtain ⟨position, left, rfl, hmap'⟩ := cases_of_map_eq_cons hmap
  obtain ⟨hlt₁, heat⟩ := eat?_cons .assign position left
  obtain ⟨left₁, hmap₁, hlt₂, heq₁⟩ := h₁ left hmap'
  obtain ⟨ts₃, hcomma, h₃⟩ := h₂
  rw [parseKey] at heq
  -- The comma behind an entry may be missing, and the reader tries it before it goes on.
  rcases hcomma with rfl | ⟨rfl, hcomma⟩
  · obtain ⟨position', left₁, rfl, hmap₂⟩ := cases_of_map_eq_cons hmap₁
    obtain ⟨hlt₃, heat₁⟩ := eat?_cons .comma position' left₁
    obtain ⟨left₂, rfl, hlt₄, heq₂⟩ := h₃ left₁ hmap₂
    refine ⟨left₂, rfl, by omega, ?_⟩
    rw [parseEntries, eat?_eq_none hts]
    -- `parseKey` stands for this choice, which the parser makes inside the entry.
    cases hbare : bareKey? spanned with
    | some key =>
      rw [hbare] at heq
      obtain rfl := Except.ok.inj heq
      simp only [bind, Except.bind, heat, heq₁]
      rw [heat₁]
      simp only [heq₂]
    | none =>
      rw [hbare] at heq
      simp only [bind, Except.bind, heq, heat, heq₁]
      rw [heat₁]
      simp only [heq₂]
  · subst hmap₁
    have hnone := eat?_eq_none hcomma
    obtain ⟨left₂, rfl, hlt₄, heq₂⟩ := h₃ left₁ rfl
    refine ⟨left₂, rfl, by omega, ?_⟩
    rw [parseEntries, eat?_eq_none hts]
    cases hbare : bareKey? spanned with
    | some key =>
      rw [hbare] at heq
      obtain rfl := Except.ok.inj heq
      simp only [bind, Except.bind, heat, heq₁]
      rw [hnone]
      simp only [heq₂]
    | none =>
      rw [hbare] at heq
      simp only [bind, Except.bind, heq, heat, heq₁]
      rw [hnone]
      simp only [heq₂]

end Reads

/-- A text that is cut into the tokens of an expression is that expression. -/
theorem parseText_eq {s : List Char} {ts : List Token} {e : Expr} (hs : Lexes s ts)
    (h : Reads parseConditional ts e [.eof]) : parseText s = .ok e := by
  obtain ⟨spanned, rfl, htokens⟩ := hs 0
  obtain ⟨left, hleft, hlt, heq⟩ := h spanned rfl
  obtain ⟨⟨_, hweight⟩, hfrom, rfl⟩ := Except.map_eq_ok htokens
  have hpeek : peek left = .eof := peek_eq hleft
  rw [parseText, Token.tokenize, hfrom]
  simp only [bind, Except.bind, heq, hpeek, if_true]

end Rules

end Expr

end Deployment
