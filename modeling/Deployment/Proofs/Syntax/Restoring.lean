import Deployment.Proofs.Syntax.Lexical
import Deployment.Proofs.Syntax.Rereading
import Deployment.Proofs.Syntax.Signs

/-! # Expressions that are read back as they are

An expression that was read is written as text from which it is read again, and not only one that
is equivalent to it. Most of what the printer writes ambiguously is never read in the first place:
there is no negative number, no literal list and no template of plain text (`Built`). What is left
are the nodes that are not `Restorable`, with a dollar sign in front of an interpolation, the name
`for` at the start of a list, the word for a value as a key, or an attribute of a reference. Each of
them is read as something else or not at all (`parse_render_alters`). A decimal is restorable if
its text denotes it.
-/

namespace Deployment.Expr

open Reads
open Token (enclosed groupedIf)

/-! ## What can be restored -/

/-- A node that is read back from its text as it is, if the parser has built it. -/
def Restorable : Expr → Prop
  | .literal (.number (.decimal x)) => Decimal.ReadsBack x
  -- The dollar sign would escape the interpolation.
  | .template parts => Template.Unmarked parts
  -- The keyword would start a `for` expression.
  | .list items => ∀ e ∈ items.head?, e.tokens.head? ≠ some (.name "for")
  -- The bare word is read as text.
  | .map entries => ∀ entry ∈ entries, entry.1 ≠ .literal .null ∧ ∀ b, entry.1 ≠ .literal (.bool b)
  -- The name is read as part of the reference.
  | .attribute object _ => ∀ r, object ≠ .reference r
  | _ => True

/-- A literal that the parser has built is legible if it is restorable. Its integers always are. -/
theorem legible_of_atomic {v : Value} (h : v.Atomic) (h' : (literal v).Restorable) :
    v.Legible := by
  cases h with
  | null => exact .null
  | bool b => exact .bool b
  | text s => exact .text s
  | @number n _ hspelling hparse =>
    refine .number ?_
    cases n with
    | decimal x => exact h'
    | integer k =>
      have hpos : 0 ≤ k.toInt := Number.isUnsigned_of_parse? hspelling hparse
      rintro rfl
      exact absurd hpos (by decide)

/-- What was built by the parser and is restorable can be read back at all, so its text is cut into
its tokens. -/
theorem readable_of_restorable {e : Expr} (h : e.Everywhere Built) (h' : e.Everywhere Restorable) :
    e.Everywhere Readable := by
  refine h.imp₂ h' fun e here here' => ?_
  cases e using induct with
  | literal v => exact legible_of_atomic here here'
  | template parts => exact Template.separated_of_apart here.1 here'
  | list items => exact here'
  | map entries => exact fun entry hentry => (here' entry hentry).1
  | access object name => exact ⟨here, fun root heq => absurd heq (here' _)⟩
  | _ => exact here

/-! ## Operands -/

/-- What may stand behind an operand without becoming part of it. -/
structure Detached (e : Expr) (ts : List Token) : Prop where
  name : ∀ r, e = .reference r → NoName ts
  paren : ts.head? ≠ some (.symbol .openParen)

/-- Where nothing continues an operand, nothing becomes part of it. -/
theorem Detached.of_ended (e : Expr) {ts : List Token} (h : Ended ts) : Detached e ts where
  name _ _ name rest heq := h.1 (by rw [heq]; rfl)
  paren := h.2.2

/-- The written tokens are read as the expression, and the accesses behind them go on from it. -/
def Continues (written : List Token) (e : Expr) : Prop :=
  ∀ ts e₁ rest, Detached e ts → Reads (parseAccesses e) ts e₁ rest →
    Reads parseUnary (written ++ ts) e₁ rest

/-- The expression is read back, as a whole and as an operand. -/
structure Restored (e : Expr) : Prop where
  whole : RereadsAs Eq e
  operand : Continues e.operandTokens e

namespace Restored

variable {e e₁ e₂ : Expr} {ts rest : List Token}

/-- An operand on its own is read back. -/
theorem reads (h : Restored e) (hrest : Ended rest) :
    Reads parseUnary (e.operandTokens ++ rest) e rest :=
  h.operand rest e rest (.of_ended e hrest) (accesses_nil hrest)

/-- An expression in parentheses is an operand, whatever stands behind it. -/
theorem of_whole (h : RereadsAs Eq e) (hplain : e.needsParens = false → Continues e.tokens e) :
    Restored e := by
  refine ⟨h, ?_⟩
  rw [operandTokens]
  cases hparens : e.needsParens with
  | false => exact hplain hparens
  | true =>
    intro ts e₁ rest _ haccesses
    obtain ⟨_, hprimary, rfl⟩ := h.enclosed ts
    exact unary_of_primary hprimary haccesses (by simp [groupedIf, enclosed])
      (by simp [groupedIf, enclosed])

/-- What is read as an operand is also read as a whole. -/
theorem of_object (h : Continues e.tokens e) : Restored e := by
  refine of_whole (fun rest hrest => ⟨e, conditional_of_unary ?_ hrest, rfl⟩) fun _ => h
  exact h rest e rest (.of_ended e hrest.ended) (accesses_nil hrest.ended)

/-- A primary is read back as an operand: what stands behind it is no part of it. -/
theorem of_primary {t : Token} {ts : List Token} (htokens : e.tokens = t :: ts)
    (hnot : t ≠ .symbol .not) (hminus : t ≠ .symbol .minus)
    (h : ∀ rest, Detached e rest → Reads parsePrimary (e.tokens ++ rest) e rest) : Restored e :=
  of_object fun rest _ _ hrest haccesses =>
    unary_of_primary (h rest hrest) haccesses (by simp [htokens, hnot]) (by simp [htokens, hminus])

/-! ## One lemma for each kind of expression -/

/-- A literal is read back. Its number has no sign, so it is read as a number and not as a negation.
-/
theorem literal {v : Value} (h : v.Atomic) (h' : (Expr.literal v).Restorable) :
    Restored (.literal v) := by
  have hlegible := legible_of_atomic h h'
  cases h with
  | null => exact of_primary rfl (by simp) (by simp) fun _ _ => primary_null
  | bool b => exact of_primary rfl (by simp) (by simp) fun _ _ => primary_bool b
  | text s =>
    refine of_primary rfl (by simp [Token.ofText]) (by simp [Token.ofText]) fun rest _ => ?_
    have hquoted : Reads parsePrimary (.ofText s :: rest) (ofTemplate (textPart s)) rest :=
      primary_quoted (parse_quoted s)
    rwa [ofTemplate_textPart] at hquoted
  | number hspelling hparse =>
    cases hlegible with
    | number hlegible =>
      have hunsigned := Number.isUnsigned_of_parse? hspelling hparse
      -- Written without a sign, the number is one token.
      obtain ⟨spelling, htokens, hparse⟩ := Number.written_unsigned hunsigned hlegible
      refine of_primary htokens (by simp) (by simp) fun rest _ => ?_
      rw [tokens, Value.tokens, htokens]
      exact primary_number hparse

/-- A template is read back if it is not plain text, which would be read as a literal. -/
theorem template {parts : Template} (h : parts.Separated) (hliteral : parts.literal? = none)
    (hparts : ∀ e, .interpolation e ∈ parts → Cut e ∧ Restored e) :
    Restored (.template parts) := by
  obtain ⟨parts', hparse, hparts'⟩ := parseTemplate_renderParts (P := Eq) true (fun _ => rfl) h
    (fun e he => ⟨(hparts e he).1.spelled,
      (hparts e he).2.whole.mono fun _ => congrArg Part.interpolation⟩)
    0 "" (fun hne => absurd rfl hne)
  obtain rfl : parts = parts' := List.forall₂_eq_eq_eq ▸ hparts'
  refine of_primary rfl (by simp) (by simp) fun rest _ => ?_
  have hquoted : Reads parsePrimary (.quoted (renderParts true parts).toList :: rest)
      (ofTemplate parts) rest := primary_quoted hparse
  rwa [ofTemplate, hliteral] at hquoted

/-- A reference is read back, up to attributes behind it. -/
theorem reference {r : Reference} (hroot : ¬isKeyword r.root) : Restored (.reference r) := by
  refine of_primary rfl (by simp) (by simp) fun rest hrest => ?_
  rw [tokens, List.cons_append]
  exact primary_reference hroot r.path (hrest.name r rfl) hrest.paren

/-- A list is read back, if its first item does not make it a comprehension. -/
theorem list {items : List Expr} (hfor : ∀ e ∈ items.head?, e.tokens.head? ≠ some (.name "for"))
    (h : ∀ e ∈ items, Restored e) : Restored (.list items) := by
  refine of_primary rfl (by simp) (by simp) fun rest _ => ?_
  obtain ⟨items', hreads, hitems'⟩ := primary_list_reread rest hfor fun e he => (h e he).whole
  obtain rfl : items = items' := List.forall₂_eq_eq_eq ▸ hitems'
  rwa [tokens, tokensOfItems_eq_map]

/-- A map constructor is read back, if none of its keys is the word for a value. -/
theorem map {entries : List (Expr × Expr)}
    (hkeys : ∀ p ∈ entries, p.1 ≠ .literal .null ∧ ∀ b, p.1 ≠ .literal (.bool b))
    (h : ∀ p ∈ entries, Restored p.1 ∧ Restored p.2) : Restored (.map entries) := by
  refine of_primary rfl (by simp) (by simp) fun rest _ => ?_
  obtain ⟨entries', hreads, hentries'⟩ := primary_map_reread (K := Eq) (R := Eq) rest
    (fun p hp => (hkeys p hp).1) fun p hp =>
      ⟨key_reread (h p hp).1.whole (hkeys p hp).1 (fun b hb => absurd hb ((hkeys p hp).2 b))
        fun _ => id, (h p hp).2.whole⟩
  have hsame : List.Forall₂ Eq entries entries' := hentries'.imp fun _ _ h => Prod.ext h.1 h.2
  obtain rfl : entries = entries' := List.forall₂_eq_eq_eq ▸ hsame
  rwa [tokens, tokensOfEntries_eq_map]

/-- A call is read back with its arguments. -/
theorem call {name : String} {args : List Expr} (hname : ¬isKeyword name)
    (h : ∀ e ∈ args, Restored e) : Restored (.call name args) := by
  refine of_primary rfl (by simp) (by simp) fun rest _ => ?_
  obtain ⟨args', hreads, hargs'⟩ := primary_call_reread rest hname fun e he => (h e he).whole
  obtain rfl : args = args' := List.forall₂_eq_eq_eq ▸ hargs'
  rwa [tokens, tokensOfItems_eq_map]

/-- An attribute of anything but a reference is read back. Behind a reference it would be read as
part of it. -/
theorem access (h : Restored e) (he : ∀ r, e ≠ .reference r) (name : String) :
    Restored (.attribute e name) := by
  refine of_object fun ts _ _ _ haccesses => ?_
  have hobject : Detached e (.symbol .dot :: .name name :: ts) :=
    ⟨fun r heq => absurd heq (he r), by simp⟩
  simpa [tokens, operandTokens] using h.operand _ _ _ hobject (accesses_attribute haccesses)

/-- A key in brackets is read back behind its object. -/
theorem index (h : Restored e) (h₁ : Restored e₁) : Restored (.index e e₁) := by
  refine of_object fun ts _ _ _ haccesses => ?_
  have hobject : Detached e (.symbol .openBracket :: (e₁.tokens ++ .symbol .closeBracket :: ts)) :=
    ⟨by simp [NoName], by simp⟩
  have hstops : Stops (.symbol .closeBracket :: ts) := .symbol (by decide) _
  obtain ⟨_, hkey, rfl⟩ := h₁.whole _ hstops
  have hstar := ((starts_tokens e₁).append (.symbol .closeBracket :: ts)).head_ne
    (s := .star) (by decide)
  simpa [tokens, operandTokens, enclosed] using
    h.operand _ _ _ hobject (accesses_index hstar hkey haccesses)

theorem unary (op : UnaryOp) (h : Restored e) : Restored (.unary op e) :=
  of_whole (fun _ hrest => ⟨_, conditional_unary op (h.reads hrest.ended) hrest, rfl⟩) nofun

theorem binary (op : BinaryOp) (h : Restored e) (h₁ : Restored e₁) :
    Restored (.binary op e e₁) :=
  of_whole (fun _ hrest =>
    ⟨_, conditional_binary op (h.reads (.operator op _)) (h₁.reads hrest.ended) hrest, rfl⟩) nofun

theorem conditional (h : Restored e) (h₁ : Restored e₁) (h₂ : Restored e₂) :
    Restored (.conditional e e₁ e₂) :=
  of_whole (fun _ hrest => ⟨_, conditional_conditional (h.reads (.symbol (by decide) _))
    (h₁.reads (.symbol (by decide) _)) (h₂.reads hrest.ended) hrest, rfl⟩) nofun

end Restored

/-! ## Expressions -/

/-- An expression that the parser has built is read back if all its nodes are restorable. -/
theorem restored {e : Expr} (h : e.Everywhere Built) (h' : e.Everywhere Restorable) :
    Restored e := by
  -- By induction on the expression, node by node. A template needs more of its parts: their text
  -- has to be cut out of it.
  induction h with
  | @intro e here below ih =>
    obtain ⟨here', below'⟩ := h'
    have hreadable (child : Expr) (hchild : child ∈ e.children) : child.Everywhere Readable :=
      readable_of_restorable (below child hchild) (below' child hchild)
    have hchildren (child : Expr) (hchild : child ∈ e.children) : Restored child :=
      ih child hchild (below' child hchild)
    cases e using induct with
    | literal v => exact .literal here here'
    | template parts =>
      refine .template (Template.separated_of_apart here.1 here') here.2 fun e he => ?_
      have hchild : e ∈ (Expr.template parts).children := List.mem_flatMap.mpr ⟨_, he, by simp⟩
      exact ⟨cut_of_readable (hreadable e hchild), hchildren e hchild⟩
    | reference r => exact .reference here.1.2
    | list items => exact .list here' hchildren
    | map entries =>
      exact .map here' fun p hp =>
        ⟨hchildren p.1 (List.mem_flatMap.mpr ⟨p, hp, by simp⟩),
          hchildren p.2 (List.mem_flatMap.mpr ⟨p, hp, by simp⟩)⟩
    | access object name => exact (hchildren object (by simp [children])).access here' name
    | index object key =>
      exact (hchildren object (by simp [children])).index (hchildren key (by simp [children]))
    | unary op operand => exact (hchildren operand (by simp [children])).unary op
    | binary op left right =>
      exact (hchildren left (by simp [children])).binary op (hchildren right (by simp [children]))
    | conditional condition yes no =>
      exact (hchildren condition (by simp [children])).conditional
        (hchildren yes (by simp [children])) (hchildren no (by simp [children]))
    | call name args => exact .call here.2 hchildren

/-- An expression that was read is read back from its text, if every node of it is restorable. Of a
decimal this asks that its shortest digits denote it again (`Decimal.ReadsBack`). This is what the
shortest digits are chosen for, and it is assumed of each decimal that occurs. -/
theorem parse_render_of_parse {s : String} {e : Expr} (h : parse s = .ok e)
    (hrestorable : e.Everywhere Restorable) : parse e.render = .ok e := by
  have hbuilt := parseText_built s.toList e h
  obtain ⟨_, hreads, rfl⟩ := (restored hbuilt hrestorable).whole [.eof] .eof
  have hcut := cut_of_readable (readable_of_restorable hbuilt hrestorable)
  exact parseText_of_spelled hcut.spelled hreads

/-- A bare key, text between apostrophes and parentheses that are not written again. -/
def varied : String :=
  "\x7ba=['b',\"$\x7b-(c)[d]\x7d\"]\x7d"

/-- The operand in the text within quotes. -/
def variedOperand : Expr :=
  .index (.reference ⟨"c", []⟩) (.reference ⟨"d", []⟩)

/-- The expression that the text is read as. -/
def variedTree : Expr :=
  .map [(.literal (.text "a"),
    .list [.literal (.text "b"), .template [.interpolation (.unary .neg variedOperand)]])]

theorem parse_varied : parse varied = .ok variedTree := by
  cbv

theorem variedTree_restorable : variedTree.Everywhere Restorable := by
  have leaf {e : Expr} (h : e.Restorable) (hnone : e.children = []) : e.Everywhere Restorable :=
    .intro h (by simp [hnone])
  have hoperand : variedOperand.Everywhere Restorable :=
    .intro trivial (by simpa [variedOperand, children] using ⟨leaf trivial rfl, leaf trivial rfl⟩)
  have hquoted : (Expr.template [.interpolation (.unary .neg variedOperand)]).Everywhere
      Restorable :=
    .intro trivial (by simpa [children] using .intro trivial (by simpa [children] using hoperand))
  have hlist : (Expr.list [.literal (.text "b"),
      .template [.interpolation (.unary .neg variedOperand)]]).Everywhere Restorable :=
    .intro (by simp [Restorable, tokens, Value.tokens, Token.ofText])
      (by simpa [children] using ⟨leaf trivial rfl, hquoted⟩)
  exact .intro (by simp [Restorable, variedTree])
    (by simpa [variedTree, children] using ⟨leaf trivial rfl, hlist⟩)

/-- A decimal with more digits than it is written with. -/
def fraction : String :=
  "1.50"

/-- The decimal that the text is read as. -/
def fractionTree : Expr :=
  .literal (.number (.decimal 1.5))

/-- The digits are read as the decimal next to them. -/
theorem parse_fraction : parse fraction = .ok fractionTree := by
  have hwhole : Token.IsDigits ['1'] := ⟨by decide, List.all_eq_true.mp (by decide)⟩
  have hfraction : Token.IsDigits ['5', '0'] := ⟨by decide, List.all_eq_true.mp (by decide)⟩
  have hdecimal : Decimal.IsDecimal ['1', '.', '5', '0'] := .of_fraction hwhole hfraction .nil
  have hnumber : Number.parse? fraction = some (.decimal 1.5) := by
    rw [← String.ofList_toList (s := fraction)]
    exact Number.parse?_isDecimal hdecimal (by decide +kernel) (by decide +kernel)
  refine parseText_of_spelled (Token.Spelled.number hdecimal.1) (conditional_of_unary ?_ .eof)
  exact unary_of_primary (primary_number hnumber) (accesses_nil Stops.eof.ended) (by simp) (by simp)

theorem fractionTree_restorable : fractionTree.Everywhere Restorable :=
  .intro ⟨by decide +kernel, by decide +kernel⟩ (by simp [fractionTree, children])

/-- The map is written with blanks, quotes and brackets of the printer, the decimal with fewer
digits, and both are read as before. -/
theorem parse_render_varied :
    (parse varied = .ok variedTree ∧ variedTree.Everywhere Restorable ∧
      parse variedTree.render = .ok variedTree) ∧
    parse fraction = .ok fractionTree ∧ fractionTree.Everywhere Restorable ∧
      parse fractionTree.render = .ok fractionTree :=
  ⟨⟨parse_varied, variedTree_restorable,
      parse_render_of_parse parse_varied variedTree_restorable⟩,
    parse_fraction, fractionTree_restorable,
    parse_render_of_parse parse_fraction fractionTree_restorable⟩

/-! ## What is not restored -/

/-- The text of what is read is not read as the same expression. -/
def Altered (s : String) : Prop :=
  ∃ e, parse s = .ok e ∧ ∀ e', parse e.render = .ok e' → (e' == e) = false

/-- To show that a text is altered it is enough to say what is read, how this is written, and what
is read then. -/
theorem Altered.intro {s : String} (e : Expr) (text : String) (read : Option Expr)
    (hparse : parse s = .ok e) (hrender : e.render = text)
    (hread : (parse text).toOption = read) (hne : ∀ e', read = some e' → (e' == e) = false) :
    Altered s := by
  refine ⟨e, hparse, fun e' he' => hne e' ?_⟩
  rw [← hread, ← hrender, he']
  rfl

/-- Of the conditions on nodes other than decimals none can be left out. -/
theorem parse_render_alters :
    Altered "\"\\u0024$\x7bvar.a\x7d\"" ∧ Altered "[(for)]" ∧ Altered "\x7b(null) = x\x7d" ∧
      Altered "\x7b(true) = x\x7d" ∧ Altered "(x).y" := by
  refine ⟨?dollar, ?keyword, ?null, ?bool, ?access⟩
  case dollar =>
    exact .intro (.template [.text "$", .interpolation (.reference ⟨"var", ["a"]⟩)])
      "\"$$\x7bvar.a\x7d\"" (some (.literal (.text "$\x7bvar.a\x7d"))) (by cbv) (by cbv) (by cbv)
      (by rintro _ ⟨⟩; cbv)
  case keyword =>
    exact .intro (.list [.reference ⟨"for", []⟩]) "[for]" none (by cbv) (by cbv) (by cbv) (by simp)
  case null =>
    exact .intro (.map [(.literal .null, .reference ⟨"x", []⟩)]) "\x7b null = x \x7d"
      (some (.map [(.literal (.text "null"), .reference ⟨"x", []⟩)])) (by cbv) (by cbv) (by cbv)
      (by rintro _ ⟨⟩; cbv)
  case bool =>
    exact .intro (.map [(.literal (.bool true), .reference ⟨"x", []⟩)]) "\x7b true = x \x7d"
      (some (.map [(.literal (.text "true"), .reference ⟨"x", []⟩)])) (by cbv) (by cbv) (by cbv)
      (by rintro _ ⟨⟩; cbv)
  case access =>
    exact .intro (.attribute (.reference ⟨"x", []⟩) "y") "x.y"
      (some (.reference ⟨"x", ["y"]⟩)) (by cbv) (by cbv) (by cbv) (by rintro _ ⟨⟩; cbv)

end Deployment.Expr
