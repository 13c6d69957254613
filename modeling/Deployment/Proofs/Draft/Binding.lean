import Deployment.Draft.Binding
import Deployment.Proofs.Syntax.Replacement
import Deployment.Proofs.Syntax.Rereading
import Mathlib

/-! # Bound text means what the substituted template means

Binding writes a substituted template as text, and the text is read again when it is evaluated. Of a
template that was read, everything but five things is told from its text: a literal that is not
legible, a text that ends in a dollar sign in front of an interpolation, the word `for` at the start
of a list, the literal null as a key, and an attribute of the bare word `var` or `local`. A template
is `Unambiguous` without them, and then its text has the same value in every context.

The five exceptions are exceptions: for each of them there is a text that binding gives another
meaning.
-/

namespace Deployment

namespace Expr

/-- A node that is told from its text, if it is lexical. -/
def Unambiguous : Expr → Prop
  | .literal v => v.Legible
  | .template parts => Template.Unmarked parts
  | .list items => ∀ e ∈ items.head?, e.tokens.head? ≠ some (.name "for")
  | .map entries => ∀ entry ∈ entries, entry.1 ≠ .literal .null
  | .attribute object _ =>
    ∀ root, object = .reference ⟨root, []⟩ → root ≠ "var" ∧ root ≠ "local"
  | _ => True

/-- A lexical expression without ambiguous nodes is readable. -/
theorem readable_of_lexical {e : Expr} (h : e.Everywhere Lexical)
    (h' : e.Everywhere Unambiguous) : e.Everywhere Readable := by
  refine h.imp₂ h' fun e here here' => ?_
  cases e using induct with
  | template parts => exact Template.separated_of_apart here here'
  | access object name => exact ⟨here, here'⟩
  | reference r => exact here
  | call name args => exact here
  | _ => exact here'

end Expr

/-! ## Substitution -/

namespace Binding

/-- Accesses by names keep an expression lexical. -/
theorem foldl_lexical {e : Expr} {names : List String} (he : e.Everywhere Expr.Lexical)
    (h : ∀ name ∈ names, Text.IsName name) :
    (names.foldl .attribute e).Everywhere Expr.Lexical := by
  induction names generalizing e with
  | nil => exact he
  | cons name rest ih =>
    rw [List.foldl_cons]
    refine ih (.intro (h name (by simp)) ?_) fun name hname => h name (by simp [hname])
    simpa [Expr.children] using he

/-- A symbol is replaced by a literal and by accesses with the names of the reference. -/
theorem substitute_lexical (b : Binding) {r : Reference} (h : Expr.Lexical (.reference r)) :
    (b.substitute r).Everywhere Expr.Lexical := by
  unfold substitute
  split
  · refine foldl_lexical (.intro trivial (by simp [Expr.children])) fun name hname => ?_
    exact h.2 name (List.mem_of_mem_drop hname)
  · exact .intro h (by simp [Expr.children])

/-- A reference that is no symbol of the binding stays as it is. -/
theorem substitute_eq_self {b : Binding} {r : Reference} (h : ¬(b.value? r).isSome) :
    b.substitute r = .reference r := by
  unfold substitute
  split
  · rename_i heq
    simp [heq] at h
  · rfl

end Binding

namespace Template

/-- What the parser returns for text outside of quotes. -/
theorem parse_lexical {text : String} {parts : Template}
    (h : Template.parse text false = .ok parts) :
    parts.Apart ∧ parts.Unmarked ∧ ∀ e, .interpolation e ∈ parts → e.Everywhere Expr.Lexical := by
  obtain ⟨hapart, hbuilt, hunmarked⟩ := Expr.parseTemplate_built false 0 "" text.toList parts h
  refine ⟨hapart, hunmarked rfl (by simp), fun e he => ?_⟩
  exact (hbuilt e he).mono fun _ => Expr.Built.lexical

/-- A substituted template without ambiguous nodes is read back from its text. -/
theorem parse_render {parts : Template} (hparts : parts.Separated)
    (h : ∀ e, .interpolation e ∈ parts → e.Everywhere Expr.Readable) :
    ∃ parts', Template.parse (parts.render false) false = .ok parts' ∧
      Expr.Equivalent (.template parts) (.template parts') := by
  obtain ⟨parts', hparse, hparts'⟩ := Expr.parseTemplate_equivalent false hparts fun e he =>
    ⟨(Expr.cut_of_readable (h e he)).spelled, (Expr.reread (h e he)).whole⟩
  exact ⟨parts', hparse, .template hparts'⟩

/-- Evaluating bound text gives the value of the template with the symbols replaced, unless a symbol
was replaced and the result has an ambiguous node. -/
theorem evaluateText_bindText (b : Binding) (location : String) {text : String} {parts : Template}
    (hparse : Template.parse text false = .ok parts)
    (h : (∃ r ∈ parts.references, (b.value? r).isSome) →
      ∀ e, .interpolation e ∈ parts.replace b.substitute → e.Everywhere Expr.Unambiguous) :
    ∃ bound, bindText b location text = .ok bound ∧ ∀ context location',
      Agree (evaluateText context location' bound)
        (Template.evaluate context location' (parts.replace b.substitute)) := by
  obtain ⟨hapart, hunmarked, hlexical⟩ := parse_lexical hparse
  unfold bindText
  rw [hparse]
  dsimp only
  split
  · rename_i hany
    -- The template is written again only if a symbol in it was replaced.
    have hbound : ∃ r ∈ parts.references, (b.value? r).isSome := by simpa using hany
    have hseparated : (parts.replace b.substitute).Separated :=
      separated_of_apart (Expr.apart_replace hapart) (Expr.unmarked_replace hunmarked)
    have hreadable (e : Expr) (he : .interpolation e ∈ parts.replace b.substitute) :
        e.Everywhere Expr.Readable := by
      refine Expr.readable_of_lexical ?_ (h hbound e he)
      obtain ⟨e₁, hmem, rfl⟩ := Expr.mem_replace.mp he
      exact Expr.everywhere_lexical_replace (hlexical e₁ hmem) fun _ => b.substitute_lexical
    obtain ⟨parts', hparse', hparts'⟩ := parse_render hseparated hreadable
    refine ⟨_, rfl, fun context location' => ?_⟩
    rw [evaluateText, hparse']
    exact (hparts' context location').symm
  · rename_i hnone
    -- Nothing was replaced, and the text is left as it is.
    have hsame : parts.replace b.substitute = parts := by
      refine Expr.replaceParts_eq_self fun r hr => b.substitute_eq_self fun hbound => hnone ?_
      exact List.any_eq_true.mpr ⟨r, hr, hbound⟩
    refine ⟨_, rfl, fun context location' => ?_⟩
    rw [evaluateText, hparse, hsame]
    exact .refl _

/-- A negation of an attribute of the value, and the key. -/
def keyed : Template :=
  [.interpolation (.unary .neg (.reference ⟨"each", ["value", "size"]⟩)), .text "-",
    .interpolation (.reference ⟨"each", ["key"]⟩)]

/-- An instance whose value has a negative number in it. -/
def negative : Binding :=
  .each "web" (.map [("size", .number (.integer (-2)))])

/-- The literals that the symbols were replaced by are legible, also the map with the negative
number in it. -/
theorem keyed_unambiguous (e : Expr) (he : .interpolation e ∈ keyed.replace negative.substitute) :
    e.Everywhere Expr.Unambiguous := by
  have hmap : (Value.map [("size", .number (.integer (-2)))]).Legible := by
    refine .map (by simp) ?_
    intro key v hmem
    obtain ⟨rfl, rfl⟩ : key = "size" ∧ v = .number (.integer (-2)) := by simpa using hmem
    exact .number (show (-2 : Int64) ≠ Int64.minValue by decide)
  have hreplace : keyed.replace negative.substitute =
      [.interpolation (.unary .neg
        (.attribute (.literal (.map [("size", .number (.integer (-2)))])) "size")),
        .text "-", .interpolation (.literal (.text "web"))] := by
    cbv
  rw [hreplace] at he
  simp only [List.mem_cons, Part.interpolation.injEq, reduceCtorEq, List.not_mem_nil, false_or,
    or_false] at he
  rcases he with rfl | rfl
  · refine .intro trivial ?_
    intro child hchild
    rw [List.mem_singleton.mp hchild]
    refine .intro (fun root heq => by cases heq) ?_
    intro child hchild
    rw [List.mem_singleton.mp hchild]
    exact .intro hmap (by simp [Expr.children])
  · exact .intro (.text "web") (by simp [Expr.children])

/-- The attribute is negated after binding as before. -/
theorem keyed_evaluateText_bindText :
    Template.parse "$\x7b-each.value.size\x7d-$\x7beach.key\x7d" false = .ok keyed ∧
    (∀ e, .interpolation e ∈ keyed.replace negative.substitute → e.Everywhere Expr.Unambiguous) ∧
    ∃ bound, bindText negative "" "$\x7b-each.value.size\x7d-$\x7beach.key\x7d" = .ok bound ∧
      ∀ context location', Agree (evaluateText context location' bound)
        (Template.evaluate context location' (keyed.replace negative.substitute)) := by
  have hparse : Template.parse "$\x7b-each.value.size\x7d-$\x7beach.key\x7d" false = .ok keyed := by
    cbv
  exact ⟨hparse, keyed_unambiguous,
    evaluateText_bindText negative "" hparse fun _ => keyed_unambiguous⟩

/-! ## The exceptions -/

/-- Binding gives the text another meaning. -/
def Diverges (b : Binding) (text : String) : Prop :=
  ∃ parts bound context, Template.parse text false = .ok parts ∧ bindText b "" text = .ok bound ∧
    ¬Agree (evaluateText context "" bound)
      (Template.evaluate context "" (parts.replace b.substitute))

/-- Binding diverges where the two values are computed and are different. -/
theorem Diverges.intro {b : Binding} {text : String} (parts : Template) (bound : String)
    (context : Context) (v w : Option Value) (hparse : Template.parse text false = .ok parts)
    (hbind : bindText b "" text = .ok bound)
    (hbound : (evaluateText context "" bound).toOption = v)
    (htree : (Template.evaluate context "" (parts.replace b.substitute)).toOption = w)
    (hne : v ≠ w) : Diverges b text := by
  refine ⟨parts, bound, context, hparse, hbind, fun hagree => hne ?_⟩
  rw [← hbound, ← htree]
  exact hagree

/-- An interpolation of tokens that are read as an expression has the value of the expression. -/
theorem evaluateText_interpolation {text : String} {s : List Char} {ts : List Token} {e : Expr}
    (htext : text.toList = '$' :: '\x7b' :: (s ++ ['\x7d']))
    (hspelled : Token.Spelled Token.Boundary s ts) (hreads : Expr.ReadsObject ts e)
    (context : Context) (location : String) :
    (evaluateText context location text).toOption = Expr.value? context location e := by
  obtain ⟨e', hreads', he'⟩ := hreads.whole Expr.Stops.eof
  have hparse := Expr.parse_interpolation htext (Expr.closing_interpolation hspelled [])
    (Expr.parseText_of_spelled hspelled hreads') false
  rw [he' context location, evaluateText, hparse]
  dsimp only
  rw [Template.evaluate, Expr.evaluate, Expr.value?]

/-- The least integer is read back as a decimal. -/
theorem least_diverges (key : String) :
    Diverges (.each key (.number (.integer Int64.minValue))) "$\x7beach.value\x7d" := by
  have hnumber : Token.IsNumber "9223372036854775808".toList :=
    Token.IsDigits.isNumber ⟨by decide, List.all_eq_true.mp (by decide)⟩
  have hparse : Number.parse? "9223372036854775808" = some (.decimal 9223372036854775808) := by
    have hrange : Number.ofInt? (Decimal.natOfDigits "9223372036854775808".toList) = none := by
      rw [Number.ofInt?, if_neg (by decide)]
    have hdecimal : (Decimal.ofNotation? "9223372036854775808".toList).filter Float.isFinite =
        some 9223372036854775808 := by decide +kernel
    rw [← String.ofList_toList (s := "9223372036854775808"), Number.parse?_eq hnumber, hrange,
      hdecimal, ite_self, Option.none_or, Option.map_some]
  refine .intro [.interpolation (.reference ⟨"each", ["value"]⟩)] "$\x7b-9223372036854775808\x7d"
    ⟨[], []⟩ (some (.number (.decimal (-9223372036854775808))))
    (some (.number (.integer Int64.minValue))) (by cbv) (by cbv) ?_ (by cbv) (by simp)
  rw [evaluateText_interpolation rfl (Token.Spelled.minus.cons (Token.Spelled.number hnumber))
    (Expr.negative_reread hparse rfl), Expr.value?_literal]

/-- None of the five conditions on a node can be left out. -/
theorem bindText_diverges :
    Diverges (.each "web" (.number (.integer Int64.minValue))) "$\x7beach.value\x7d" ∧
    Diverges (.count 0) "$\x7b\"\\u0024$\x7bcount.index\x7d\"\x7d" ∧
    Diverges (.each "web" (.bool true)) "$\x7beach.value ? null : [(for)]\x7d" ∧
    Diverges (.each "web" .null) "$\x7b\x7b(each.value) = null\x7d\x7d" ∧
    Diverges (.each "web" (.bool true)) "$\x7beach.value ? (local).x : null\x7d" := by
  refine ⟨least_diverges "web", ?dollar, ?keyword, ?key, ?root⟩
  case dollar =>
    exact .intro
      [.interpolation (.template [.text "$", .interpolation (.reference ⟨"count", ["index"]⟩)])]
      "$\x7b\"$$\x7b0\x7d\"\x7d" ⟨[], []⟩ (some (.text "$\x7b0\x7d")) (some (.text "$0"))
      (by cbv) (by cbv) (by cbv) (by cbv) (by simp)
  case keyword =>
    exact .intro
      [.interpolation (.conditional (.reference ⟨"each", ["value"]⟩) (.literal .null)
        (.list [.reference ⟨"for", []⟩]))]
      "$\x7btrue ? null : [for]\x7d" ⟨[], []⟩ none (some .null)
      (by cbv) (by cbv) (by cbv) (by cbv) (by simp)
  case key =>
    exact .intro
      [.interpolation (.map [(.reference ⟨"each", ["value"]⟩, .literal .null)])]
      "$\x7b\x7b null = null \x7d\x7d" ⟨[], []⟩ (some (.map [("null", .null)])) none
      (by cbv) (by cbv) (by cbv) (by cbv) (by simp)
  case root =>
    exact .intro
      [.interpolation (.conditional (.reference ⟨"each", ["value"]⟩)
        (.attribute (.reference ⟨"local", []⟩) "x") (.literal .null))]
      "$\x7btrue ? local.x : null\x7d" ⟨[], [("x", .null)]⟩ (some .null) none
      (by cbv) (by cbv) (by cbv) (by cbv) (by simp)

end Template

end Deployment
