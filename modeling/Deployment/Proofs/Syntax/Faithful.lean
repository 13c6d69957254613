import Deployment.Proofs.Syntax.Rereading

/-! # Rendering is faithful

The expressions that may be written and read back: names are names, no text of a template runs into
what follows it, and nothing is written that the grammar takes for something else. They are
readable, so their text is read as an expression with the same value in every context.
-/

namespace Deployment

/-- A name that never stands for a keyword. -/
def Text.IsFreeName (name : String) : Prop :=
  IsName name ∧ name ∉ ["true", "false", "null", "for"]

instance (name : String) : Decidable (Text.IsFreeName name) :=
  inferInstanceAs (Decidable (_ ∧ _))

/-- A name that stands for no keyword can be the root of a reference. -/
theorem Text.IsFreeName.isRoot {name : String} (h : IsFreeName name) : IsRoot name := by
  refine ⟨h.1, fun hmem => h.2 ?_⟩
  simp only [List.mem_cons, List.not_mem_nil, or_false] at hmem ⊢
  tauto

namespace Expr

/-- A node of an expression that is written faithfully. -/
def Plain : Expr → Prop
  | .literal v => v.Legible
  | .template parts => Template.Separated parts
  | .reference r => Text.IsFreeName r.root ∧ ∀ name ∈ r.path, Text.IsName name
  | .map entries => ∀ entry ∈ entries, entry.1 ≠ .literal .null
  | .attribute object name => Text.IsName name ∧ ∀ root, object ≠ .reference ⟨root, []⟩
  | .call name _ => Text.IsFreeName name
  | _ => True

/-- The keyword of `for` expressions comes first in no plain expression. -/
theorem tokens_head_ne {e : Expr} (h : e.Everywhere Plain) :
    e.tokens.head? ≠ some (.name "for") := by
  -- What is written in parentheses starts with one of them.
  have operand {object : Expr} (ih : object.tokens.head? ≠ some (.name "for"))
      (rest : List Token) :
      (Token.groupedIf object.needsParens object.tokens ++ rest).head? ≠ some (.name "for") := by
    obtain ⟨t, ts, heq, -⟩ := starts_tokens object
    cases object.needsParens with
    | true => simp [Token.groupedIf, Token.enclosed]
    | false => simpa [Token.groupedIf, heq] using ih
  have hfree {name : String} (hname : Text.IsFreeName name) : name ≠ "for" := by
    rintro rfl
    exact hname.2 (by decide)
  induction h with
  | @intro e here below ih =>
    cases e using induct with
    | literal v => exact literal_head_ne v
    | reference r => simpa [tokens] using hfree here.1
    | access object name => exact operand (ih object (by simp [children])) _
    | index object key => exact operand (ih object (by simp [children])) _
    | binary op left right => exact operand (ih left (by simp [children])) _
    | conditional condition yes no => exact operand (ih condition (by simp [children])) _
    | call name args => simpa [tokens] using hfree here
    | _ => simp [tokens, Token.enclosed]

/-- Plain expressions are readable: the conditions are checked node by node. -/
theorem readable_of_plain {e : Expr} (h : e.Everywhere Plain) : e.Everywhere Readable := by
  induction h with
  | @intro e here below ih =>
    refine .intro ?_ ih
    cases e using induct with
    | reference r => exact ⟨here.1.isRoot, here.2⟩
    | list items => exact fun e he => tokens_head_ne (below e (List.mem_of_mem_head? he))
    | access object name => exact ⟨here.1, fun root heq => absurd heq (here.2 root)⟩
    | call name args => exact here.isRoot
    | _ => exact here

/-- Writing an expression and reading it again does not change its value: the text is read, and what
is read has the same value in every context, or fails with the expression. -/
theorem evaluate_parse_render {e : Expr} (h : e.Everywhere Plain) :
    ∃ e', parse e.render = .ok e' ∧ ∀ context location,
      Agree (evaluate context location e') (evaluate context location e) := by
  obtain ⟨e', hparse, he'⟩ := parse_render (readable_of_plain h)
  exact ⟨e', hparse, fun context location => (he' context location).symm⟩

/-- An index into a list with a negative decimal and with text that looks like an interpolation. -/
def indexed : Expr :=
  .index (.literal (.list [.number (.decimal (-1.5)), .text "\"$\x7b"]))
    (.unary .neg (.literal (.number (.integer (-1)))))

/-- The text in it is legible although it looks like an interpolation, as it is written with
escapes. -/
theorem indexed_plain : indexed.Everywhere Plain := by
  have hone : Number.Legible (.integer (-1)) := show (-1 : Int64) ≠ Int64.minValue by decide
  have hdecimal : Number.Legible (.decimal (-1.5)) := ⟨by decide +kernel, by decide +kernel⟩
  refine .intro trivial ?_
  simp only [indexed, children, List.forall_mem_cons, List.not_mem_nil, false_imp_iff, forall_const,
    and_true]
  refine ⟨.intro (.list ?_) (by simp [children]), .intro trivial ?_⟩
  · simpa using ⟨Value.Legible.number hdecimal, .text _⟩
  · simpa [children] using Everywhere.intro (.number hone) (by simp [children])

/-- The decimal and the negated number are read back with their values. -/
theorem indexed_parse_render : indexed.Everywhere Plain ∧
    ∃ e', parse indexed.render = .ok e' ∧ ∀ context location,
      Agree (evaluate context location e') (evaluate context location indexed) :=
  ⟨indexed_plain, evaluate_parse_render indexed_plain⟩

end Expr

end Deployment
