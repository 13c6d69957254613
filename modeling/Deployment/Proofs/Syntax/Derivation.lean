import Deployment.Proofs.Syntax.Grammar
import Deployment.Proofs.Syntax.Lexemes

/-! # Derivations

`Derives` is the grammar of expressions and templates as an inductive predicate: one rule for each
kind of expression, with the tokens it is written with, and one for each kind of template text.
Which of several readings of the same tokens is meant, by precedence or because a name in front of
an equals sign is a key, is left to the parser. The rules say what an expression can be read from.

The parser is sound: whatever it returns is derived from the tokens it has taken, or from the text.
What holds of all rules holds of everything that was ever read.
-/

namespace Deployment.Expr

open Reads
open Token (Lexemes enclosed)

/-- Something that is read, with the tokens or the characters that it is read from. -/
inductive Phrase
  | expression (ts : List Token) (e : Expr)
  | key (ts : List Token) (e : Expr)
  /-- Items up to and including the closing symbol. -/
  | items (close : Symbol) (ts : List Token) (items : List Expr)
  /-- Entries up to and including the closing brace. -/
  | entries (ts : List Token) (entries : List (Expr × Expr))
  | source (s : List Char) (e : Expr)
  /-- Template text behind plain text that has been read already. -/
  | template (inQuotes : Bool) (literal : String) (s : List Char) (parts : Template)

/-- A marker comes first, or an escaped one. -/
inductive Marked : List Char → Prop
  | marker {sign : Char} (hsign : sign = '$' ∨ sign = '%') (rest : List Char) :
      Marked (sign :: '\x7b' :: rest)
  | escaped {sign : Char} (hsign : sign = '$' ∨ sign = '%') (rest : List Char) :
      Marked (sign :: sign :: '\x7b' :: rest)

/-- The rules of the grammar. -/
inductive Derives : Phrase → Prop
  | number {spelling : String} {n : Number} (h : Number.parse? spelling = some n) :
      Derives (.expression [.number spelling] (.literal (.number n)))
  | text (s : String) : Derives (.expression [.text s] (.literal (.text s)))
  | quoted {content : List Char} {parts : Template} (h : Derives (.template true "" content parts)) :
      Derives (.expression [.quoted content] (ofTemplate parts))
  | bool (b : Bool) : Derives (.expression [.name (toString b)] (.literal (.bool b)))
  | null : Derives (.expression [.name "null"] (.literal .null))
  | reference {root : String} (hroot : ¬isKeyword root) (path : List String) :
      Derives (.expression (.name root :: pathTokens path) (.reference ⟨root, path⟩))
  | call {name : String} {ts : List Token} {args : List Expr} (hname : ¬isKeyword name)
      (hargs : Derives (.items .closeParen ts args)) :
      Derives (.expression (.name name :: .symbol .openParen :: ts) (.call name args))
  | parens {ts : List Token} {e : Expr} (h : Derives (.expression ts e)) :
      Derives (.expression (enclosed .openParen .closeParen ts) e)
  | list {ts : List Token} {items : List Expr} (h : Derives (.items .closeBracket ts items)) :
      Derives (.expression (.symbol .openBracket :: ts) (.list items))
  | map {ts : List Token} {entries : List (Expr × Expr)} (h : Derives (.entries ts entries)) :
      Derives (.expression (.symbol .openBrace :: ts) (.map entries))
  | access {ts : List Token} {object : Expr} (h : Derives (.expression ts object))
      (name : String) :
      Derives (.expression (ts ++ [.symbol .dot, .name name]) (.attribute object name))
  | position {ts : List Token} {object : Expr} {spelling : String} {n : Number}
      (h : Derives (.expression ts object)) (hn : Number.parse? spelling = some n) :
      Derives (.expression (ts ++ [.symbol .dot, .number spelling])
        (.index object (.literal (.number n))))
  | index {ts ts₁ : List Token} {object key : Expr} (h : Derives (.expression ts object))
      (hkey : Derives (.expression ts₁ key)) :
      Derives (.expression (ts ++ enclosed .openBracket .closeBracket ts₁) (.index object key))
  | unary (op : UnaryOp) {ts : List Token} {e : Expr} (h : Derives (.expression ts e)) :
      Derives (.expression (.symbol op.token :: ts) (.unary op e))
  | binary (op : BinaryOp) {ts ts₁ : List Token} {left right : Expr}
      (hleft : Derives (.expression ts left)) (hright : Derives (.expression ts₁ right)) :
      Derives (.expression (ts ++ .symbol op.token :: ts₁) (.binary op left right))
  | conditional {ts ts₁ ts₂ : List Token} {condition yes no : Expr}
      (h : Derives (.expression ts condition)) (hyes : Derives (.expression ts₁ yes))
      (hno : Derives (.expression ts₂ no)) :
      Derives (.expression (ts ++ .symbol .question :: (ts₁ ++ .symbol .colon :: ts₂))
        (.conditional condition yes no))
  | items_nil (close : Symbol) : Derives (.items close [.symbol close] [])
  | items_last (close : Symbol) {ts : List Token} {e : Expr} (h : Derives (.expression ts e)) :
      Derives (.items close (ts ++ [.symbol close]) [e])
  | items_cons {close : Symbol} {ts ts₁ : List Token} {e : Expr} {items : List Expr}
      (h : Derives (.expression ts e)) (hitems : Derives (.items close ts₁ items)) :
      Derives (.items close (ts ++ .symbol .comma :: ts₁) (e :: items))
  | name_key (name : String) : Derives (.key [.name name] (.literal (.text name)))
  | key {ts : List Token} {e : Expr} (h : Derives (.expression ts e)) : Derives (.key ts e)
  | entries_nil : Derives (.entries [.symbol .closeBrace] [])
  | entries_cons {ts ts₁ ts₂ comma : List Token} {key e : Expr} {entries : List (Expr × Expr)}
      {sign : Symbol} (hkey : Derives (.key ts key)) (hsign : sign = .assign ∨ sign = .colon)
      (h : Derives (.expression ts₁ e)) (hcomma : comma = [.symbol .comma] ∨ comma = [])
      (hentries : Derives (.entries ts₂ entries)) :
      Derives (.entries (ts ++ .symbol sign :: (ts₁ ++ (comma ++ ts₂))) ((key, e) :: entries))
  | source {s : List Char} {ts : List Token} {e : Expr} (hs : Lexemes s (ts ++ [.eof]))
      (h : Derives (.expression ts e)) : Derives (.source s e)
  | template_nil (inQuotes : Bool) (literal : String) :
      Derives (.template inQuotes literal [] (textPart literal))
  | marker {inQuotes : Bool} {literal : String} {sign : Char} {rest : List Char} {parts : Template}
      (hsign : sign = '$' ∨ sign = '%')
      (h : Derives (.template inQuotes (literal ++ String.ofList [sign, '\x7b']) rest parts)) :
      Derives (.template inQuotes literal (sign :: sign :: '\x7b' :: rest) parts)
  | interpolation {inQuotes : Bool} {literal : String} {rest : List Char} {n : Nat} {e : Expr}
      {parts : Template} (hn : Template.closing .braces [] rest = some n)
      (he : Derives (.source (rest.take n) e))
      (h : Derives (.template inQuotes "" (rest.drop (n + 1)) parts)) :
      Derives (.template inQuotes literal ('$' :: '\x7b' :: rest)
        (textPart literal ++ .interpolation e :: parts))
  | escaped {literal : String} {rest : List Char} {decoded : Char} {n : Nat} {parts : Template}
      (hn : Template.unescape rest = .ok (decoded, n))
      (h : Derives (.template true (literal.push decoded) (rest.drop n) parts)) :
      Derives (.template true literal ('\\' :: rest) parts)
  | plain {inQuotes : Bool} {literal : String} {c : Char} {rest : List Char} {parts : Template}
      (hc : ¬Marked (c :: rest))
      (h : Derives (.template inQuotes (literal.push c) rest parts)) :
      Derives (.template inQuotes literal (c :: rest) parts)

/-- The tokens that something is read from. -/
def Phrase.tokens : Phrase → List Token
  | .expression ts _ | .key ts _ | .items _ ts _ | .entries ts _ => ts
  | .source _ _ | .template _ _ _ _ => []

/-- No rule reads the end of the text. -/
theorem Derives.eof_not_mem {p : Phrase} (h : Derives p) : .eof ∉ p.tokens := by
  induction h with
  | reference _ path => simp [Phrase.tokens]
  | entries_cons _ _ _ hcomma _ ihkey ih ihentries =>
    rcases hcomma with rfl | rfl <;> simpa [Phrase.tokens] using ⟨ihkey, ih, ihentries⟩
  | _ => simp_all [Phrase.tokens, enclosed]

/-! ## Looking at tokens -/

section Tokens

variable {tokens : List Spanned}

/-- What is eaten is the symbol that was asked for. -/
theorem eat?_takes {s : Symbol} {left : { rest : List Spanned //
    Spanned.totalWeight rest < Spanned.totalWeight tokens }} (h : eat? s tokens = some left) :
    tokens.map Spanned.token = .symbol s :: left.val.map Spanned.token := by
  unfold eat? at h
  split at h
  · split at h
    · rename_i heq
      obtain rfl := Option.some.inj h
      rw [heq]
      rfl
    · cases h
  · cases h

/-- What is expected is taken, or the reading fails. -/
theorem expect_takes (s : Symbol) (tokens : List Spanned) :
    Ensures (expect s tokens) fun left =>
      tokens.map Spanned.token = .symbol s :: left.val.map Spanned.token := by
  unfold expect
  split
  · rename_i heat
    exact .ok (eat?_takes heat)
  · exact .error _

/-- An operator is read from its own symbol only. -/
theorem eq_token_of_operatorOf? {s : Symbol} {op : BinaryOp} (h : operatorOf? s = some op) :
    s = op.token := by
  cases s <;> cases h <;> rfl

/-- An operator takes its symbol and nothing else. -/
theorem operatorAt?_takes {level : Nat} {p : Parsed BinaryOp (Spanned.totalWeight tokens)}
    (h : operatorAt? level tokens = some p) :
    tokens.map Spanned.token = .symbol p.value.token :: p.rest.map Spanned.token := by
  unfold operatorAt? at h
  split at h
  · split at h
    · rename_i op hop
      split at h
      · obtain rfl := Option.some.inj h
        rw [eq_token_of_operatorOf? hop]
        rfl
      · cases h
    · cases h
  · cases h

/-- Attributes are taken with their dots. -/
theorem parsePath_takes (tokens : List Spanned) : tokens.map Spanned.token =
    pathTokens (parsePath tokens).value ++ (parsePath tokens).rest.map Spanned.token := by
  fun_induction parsePath tokens with
  | case1 position name position' rest path ih =>
    rw [List.map_cons, List.map_cons, ih]
    rfl
  | case2 => rfl

/-- What is read from the spelling of a number is the number that it denotes. -/
theorem parseNumber_derives (spelling : String) (rest : List Spanned) :
    Ensures (parseNumber spelling rest) fun v =>
      ∃ n, Number.parse? spelling = some n ∧ v = .number n := by
  unfold parseNumber
  split
  · rename_i n h
    exact .ok ⟨n, h, rfl⟩
  · exact .error _

/-- An equals sign or a colon, as it stands between a key and its value. -/
def TakesSign (tokens : List Spanned) (left : { rest : List Spanned //
    Spanned.totalWeight rest < Spanned.totalWeight tokens }) : Prop :=
  ∃ sign, (sign = .assign ∨ sign = .colon) ∧
    tokens.map Spanned.token = .symbol sign :: left.val.map Spanned.token

/-- What was read is derived from the tokens that are taken away. -/
def Parsed.DerivedFrom {α : Type} {bound : Nat} (tokens : List Spanned)
    (phrase : List Token → α → Phrase) (p : Parsed α bound) : Prop :=
  ∃ ts, tokens.map Spanned.token = ts ++ p.rest.map Spanned.token ∧ Derives (phrase ts p.value)

/-- The bound on what is left does not matter to the derivation. -/
theorem Parsed.DerivedFrom.widen {α : Type} {a b : Nat} {phrase : List Token → α → Phrase}
    {p : Parsed α a} (h : p.DerivedFrom tokens phrase) (hle : a ≤ b) :
    (p.widen hle).DerivedFrom tokens phrase :=
  h

/-- A bare key is the text of its name. -/
theorem bareKey?_derives {key : Parsed Expr (Spanned.totalWeight tokens)}
    (h : bareKey? tokens = some key) : key.DerivedFrom tokens .key := by
  unfold bareKey? at h
  split at h
  · split at h
    · obtain rfl := Option.some.inj h
      exact ⟨_, rfl, .name_key _⟩
    · cases h
  · cases h

end Tokens

/-! ## Soundness -/

/-- In front of the end the tokens of a text are the ones that were taken. -/
theorem source_of_peek {text : List Char} {tokens rest : List Spanned} {ts : List Token} {e : Expr}
    (hlexemes : Lexemes text (tokens.map Spanned.token))
    (htaken : tokens.map Spanned.token = ts ++ rest.map Spanned.token)
    (h : Derives (.expression ts e)) (heof : peek rest = .eof) : Derives (.source text e) := by
  obtain ⟨front, hfront, hproper⟩ := hlexemes.proper
  have hnot : .eof ∉ front := fun hmem => hproper _ hmem
  have hsplit := htaken.symm.trans hfront
  -- The reader stops in front of the end and never behind it, as it takes no end.
  cases rest with
  | nil =>
    have hmem : .eof ∈ ts := by
      rw [List.map_nil, List.append_nil] at hsplit
      simp [hsplit]
    exact absurd hmem h.eof_not_mem
  | cons t rest =>
    have hlast := congrArg List.dropLast hsplit
    rw [List.dropLast_concat, List.dropLast_append_of_ne_nil (by simp)] at hlast
    cases rest with
    | nil =>
      have ht : t.token = .eof := heof
      rw [htaken, List.map_cons, List.map_nil, ht] at hlexemes
      exact .source hlexemes h
    | cons t' rest =>
      -- The end of the text comes only once.
      have hmem : .eof ∈ front := by
        have ht : t.token = .eof := heof
        simp [← hlast, ht]
      exact absurd hmem hnot

mutual
/-- The text of a template is derived character by character, and the text of an interpolation as an
expression. -/
theorem parseTemplate_derives (inQuotes : Bool) (position : Nat) (literal : String)
    (s : List Char) :
    Ensures (parseTemplate inQuotes position literal s)
      fun parts => Derives (.template inQuotes literal s parts) := by
  generalize hs : s = t
  unfold parseTemplate
  split
  · exact .ok (.template_nil _ _)
  · exact (parseTemplate_derives _ _ _ _).mono fun _ h => .marker (.inl rfl) h
  · exact (parseTemplate_derives _ _ _ _).mono fun _ h => .marker (.inr rfl) h
  · split
    · exact .error _
    · rename_i n h
      have hn := Template.closing_lt_length h
      dsimp only
      refine .bind ((parseText_derives _).mapError _) fun e he => ?_
      refine .bind (parseTemplate_derives _ _ _ _) fun parts hparts => ?_
      exact .ok (.interpolation h he hparts)
  · exact .error _
  · rename_i c rest hdollars hpercents hdollar hpercent
    split
    · rename_i hescape
      obtain ⟨rfl, rfl⟩ := hescape
      split
      · exact .error _
      · rename_i decoded n hn
        exact (parseTemplate_derives _ _ _ _).mono fun _ h => .escaped hn h
    · refine (parseTemplate_derives _ _ _ _).mono fun _ h => .plain (fun hmarked => ?_) h
      -- A plain character starts no marker, or one of the cases before would have taken it.
      cases hmarked with
      | marker hsign t =>
        rcases hsign with rfl | rfl
        · exact hdollar t rfl rfl
        · exact hpercent t rfl rfl
      | escaped hsign t =>
        rcases hsign with rfl | rfl
        · exact hdollars t rfl rfl
        · exact hpercents t rfl rfl
termination_by (s.length, 0)
decreasing_by
  all_goals
    subst_vars
    simp only [Prod.lex_def, List.length_cons, List.length_take, List.length_drop]
    omega

/-- What is read from a text is derived from its tokens, all of them up to the end. -/
theorem parseText_derives (text : List Char) :
    Ensures (parseText text) fun e => Derives (.source text e) := by
  unfold parseText
  refine .bind (Token.tokenize_lexemes text) fun ⟨tokens, hw⟩ hlexemes => ?_
  refine .bind (parseConditional_derives tokens) fun p ⟨ts, hts, he⟩ => ?_
  split
  · rename_i heof
    exact .ok (source_of_peek hlexemes hts he heof)
  · exact .error _
termination_by (text.length, 12)
decreasing_by
  all_goals
    -- Hypotheses on all characters would be searched for empty types.
    simp [Prod.lex_def, -IsEmpty.forall_iff] at *
    omega

/-- A conditional is derived from the tokens that it takes. -/
theorem parseConditional_derives (tokens : List Spanned) :
    Ensures (parseConditional tokens) (Parsed.DerivedFrom tokens .expression) := by
  unfold parseConditional
  refine .bind (parseBinary_derives 0 tokens) fun ⟨condition, rest, h⟩ ⟨ts, hts, he⟩ => ?_
  dsimp only at hts ⊢
  split
  · exact .ok ⟨ts, hts, he⟩
  · rename_i rest h₁ heat
    have hquestion := eat?_takes heat
    refine .bind (parseConditional_derives rest) fun ⟨yes, rest, h₂⟩ ⟨ts₁, hts₁, hyes⟩ => ?_
    dsimp only at hquestion hts₁ ⊢
    refine .bind (expect_takes .colon rest) fun ⟨rest, h₃⟩ hcolon => ?_
    refine .bind (parseConditional_derives rest) fun ⟨no, rest, h₄⟩ ⟨ts₂, hts₂, hno⟩ => ?_
    dsimp only at hcolon hts₂
    exact .ok ⟨_, by simp [hts, hquestion, hts₁, hcolon, hts₂], .conditional he hyes hno⟩
termination_by (Spanned.totalWeight tokens, 10)
decreasing_by all_goals simp [Prod.lex_def, -IsEmpty.forall_iff] at * <;> omega

theorem parseBinary_derives (level : Nat) (tokens : List Spanned) :
    Ensures (parseBinary level tokens) (Parsed.DerivedFrom tokens .expression) := by
  unfold parseBinary
  split
  · refine .bind (parseBinary_derives (level + 1) tokens) fun ⟨left, rest, h⟩ ⟨ts, hts, he⟩ => ?_
    refine .bind (parseOperators_derives level left rest he) fun p ⟨ts₁, hts₁, he₁⟩ => ?_
    dsimp only at hts
    exact .ok (.widen ⟨ts ++ ts₁, by simp [hts, hts₁], he₁⟩ _)
  · exact parseUnary_derives tokens
termination_by (Spanned.totalWeight tokens, 3 + (6 - level))
decreasing_by
  all_goals
    simp [Prod.lex_def, -IsEmpty.forall_iff] at *
    omega

/-- The operators behind an operand are read together with it. -/
theorem parseOperators_derives (level : Nat) (left : Expr) (tokens : List Spanned) {ts : List Token}
    (hleft : Derives (.expression ts left)) : Ensures (parseOperators level left tokens)
      (Parsed.DerivedFrom tokens fun ts₁ => .expression (ts ++ ts₁)) := by
  unfold parseOperators
  split
  · exact .ok ⟨[], rfl, by simpa using hleft⟩
  · rename_i op rest h hop
    have hsymbol := operatorAt?_takes hop
    refine .bind (parseBinary_derives (level + 1) rest) ?_
    intro ⟨right, rest, h₁⟩ ⟨ts₁, hts₁, hright⟩
    refine .bind (parseOperators_derives level _ rest (.binary op hleft hright)) ?_
    intro p ⟨ts₂, hts₂, he⟩
    dsimp only at hsymbol hts₁
    exact .ok (.widen ⟨.symbol op.token :: (ts₁ ++ ts₂), by simp [hsymbol, hts₁, hts₂],
      by simpa using he⟩ _)
termination_by (Spanned.totalWeight tokens, 0)
decreasing_by
  all_goals
    simp [Prod.lex_def, -IsEmpty.forall_iff] at *
    omega

theorem parseUnary_derives (tokens : List Spanned) :
    Ensures (parseUnary tokens) (Parsed.DerivedFrom tokens .expression) := by
  unfold parseUnary
  split
  · rename_i rest h heat
    have hnot := eat?_takes heat
    refine .bind (parseUnary_derives rest) fun p ⟨ts, hts, he⟩ => ?_
    exact .ok ⟨.symbol .not :: ts, by simp [hnot, hts], .unary .not he⟩
  · rename_i rest h _ heat
    have hminus := eat?_takes heat
    refine .bind (parseUnary_derives rest) fun p ⟨ts, hts, he⟩ => ?_
    exact .ok ⟨.symbol .minus :: ts, by simp [hminus, hts], .unary .neg he⟩
  · refine .bind (parsePrimary_derives tokens) fun ⟨object, rest, h⟩ ⟨ts, hts, he⟩ => ?_
    refine .bind (parseAccesses_derives object rest he) fun p ⟨ts₁, hts₁, he₁⟩ => ?_
    dsimp only at hts
    exact .ok (.widen ⟨ts ++ ts₁, by simp [hts, hts₁], he₁⟩ _)
termination_by (Spanned.totalWeight tokens, 2)
decreasing_by all_goals simp [Prod.lex_def, -IsEmpty.forall_iff] at * <;> omega

/-- The accesses behind an expression are read together with it. -/
theorem parseAccesses_derives (object : Expr) (tokens : List Spanned) {ts : List Token}
    (hobject : Derives (.expression ts object)) : Ensures (parseAccesses object tokens)
      (Parsed.DerivedFrom tokens fun ts₁ => .expression (ts ++ ts₁)) := by
  generalize htokens : tokens = left
  unfold parseAccesses
  split
  · rename_i dot name position rest
    refine .bind (parseAccesses_derives _ rest (.access hobject name)) fun p ⟨ts₁, hts₁, he⟩ => ?_
    exact .ok (.widen ⟨.symbol .dot :: .name name :: ts₁, by simp [hts₁], by simpa using he⟩ _)
  · rename_i dot spelling position rest
    refine .bind (parseNumber_derives spelling rest) fun v ⟨n, hn, hv⟩ => ?_
    subst hv
    refine .bind (parseAccesses_derives _ rest (.position hobject hn)) fun p ⟨ts₁, hts₁, he⟩ => ?_
    exact .ok (.widen ⟨.symbol .dot :: .number spelling :: ts₁, by simp [hts₁],
      by simpa using he⟩ _)
  · exact .error _
  · exact .error _
  · rename_i bracket rest
    split
    · exact .error _
    · refine .bind (parseConditional_derives rest) fun ⟨key, rest, h₁⟩ ⟨ts₁, hts₁, hkey⟩ => ?_
      refine .bind (expect_takes .closeBracket rest) fun ⟨rest, h₂⟩ hclose => ?_
      refine .bind (parseAccesses_derives _ rest (.index hobject hkey)) fun p ⟨ts₂, hts₂, he⟩ => ?_
      dsimp only at hts₁ hclose
      exact .ok (.widen ⟨enclosed .openBracket .closeBracket ts₁ ++ ts₂,
        by simp [enclosed, hts₁, hclose, hts₂], by simpa using he⟩ _)
  · exact .ok ⟨[], rfl, by simpa using hobject⟩
termination_by (Spanned.totalWeight tokens, 0)
decreasing_by
  all_goals
    subst_vars
    simp [Token.weight, Prod.lex_def, -IsEmpty.forall_iff] at * <;> omega

/-- A primary is derived from the tokens that it takes. -/
theorem parsePrimary_derives (tokens : List Spanned) :
    Ensures (parsePrimary tokens) (Parsed.DerivedFrom tokens .expression) := by
  generalize htokens : tokens = left
  unfold parsePrimary
  split
  · refine .bind (parseNumber_derives _ _) fun v ⟨n, hn, hv⟩ => ?_
    subst hv
    exact .ok ⟨_, rfl, .number hn⟩
  · exact .ok ⟨_, rfl, .text _⟩
  · rename_i content start rest
    have hparts := (parseTemplate_derives true 0 "" content).mapError (·.shift (start + 1))
    refine .bind hparts fun parts hparts => ?_
    exact .ok ⟨_, rfl, .quoted hparts⟩
  · exact .ok ⟨_, rfl, .bool true⟩
  · exact .ok ⟨_, rfl, .bool false⟩
  · exact .ok ⟨_, rfl, .null⟩
  · rename_i name position rest htrue hfalse hnull
    have hname : ¬isKeyword name := by simpa [isKeyword] using ⟨htrue, hfalse, hnull⟩
    split
    · rename_i rest h heat
      have hparen := eat?_takes heat
      refine .bind (parseItems_derives .closeParen rest) fun args ⟨ts, hts, hargs⟩ => ?_
      exact .ok ⟨_, by simp [hparen, hts], .call hname hargs⟩
    · exact .ok ⟨_, by simp [parsePath_takes rest], .reference hname _⟩
  · rename_i position rest
    refine .bind (parseConditional_derives rest) fun ⟨e, rest, h₁⟩ ⟨ts, hts, he⟩ => ?_
    refine .bind (expect_takes .closeParen rest) fun ⟨rest, h₂⟩ hclose => ?_
    dsimp only at hts hclose
    exact .ok ⟨_, by simp [enclosed, hts, hclose], .parens he⟩
  · rename_i position rest
    split
    · exact .error _
    · refine .bind (parseItems_derives .closeBracket rest) fun items ⟨ts, hts, hitems⟩ => ?_
      exact .ok ⟨_, by simp [hts], .list hitems⟩
  · rename_i position rest
    split
    · exact .error _
    · refine .bind (parseEntries_derives rest) fun entries ⟨ts, hts, hentries⟩ => ?_
      exact .ok ⟨_, by simp [hts], .map hentries⟩
  · exact .error _
termination_by (Spanned.totalWeight tokens, 0)
decreasing_by
  all_goals
    subst_vars
    simp [Token.weight, Prod.lex_def, -IsEmpty.forall_iff] at * <;> omega

/-- Items are derived from their tokens up to the closing symbol. -/
theorem parseItems_derives (close : Symbol) (tokens : List Spanned) :
    Ensures (parseItems close tokens) (Parsed.DerivedFrom tokens (.items close)) := by
  unfold parseItems
  split
  · rename_i rest h heat
    exact .ok ⟨_, eat?_takes heat, .items_nil close⟩
  · refine .bind (parseConditional_derives tokens) fun ⟨e, rest, h⟩ ⟨ts, hts, he⟩ => ?_
    dsimp only at hts ⊢
    split
    · exact .error _
    split
    · rename_i rest h₁ heat
      have hcomma := eat?_takes heat
      refine .bind (parseItems_derives close rest) fun ⟨items, rest, h₂⟩ ⟨ts₁, hts₁, hitems⟩ => ?_
      dsimp only at hcomma hts₁
      exact .ok ⟨_, by simp [hts, hcomma, hts₁], .items_cons he hitems⟩
    · refine .bind (expect_takes close rest) fun ⟨rest, h₁⟩ hclose => ?_
      dsimp only at hclose
      exact .ok ⟨_, by simp [hts, hclose], .items_last close he⟩
termination_by (Spanned.totalWeight tokens, 11)
decreasing_by all_goals simp [Prod.lex_def, -IsEmpty.forall_iff] at * <;> omega

/-- Entries are derived from their tokens up to the closing brace. -/
theorem parseEntries_derives (tokens : List Spanned) :
    Ensures (parseEntries tokens) (Parsed.DerivedFrom tokens .entries) := by
  unfold parseEntries
  split
  · rename_i rest h heat
    exact .ok ⟨_, eat?_takes heat, .entries_nil⟩
  · dsimp only
    -- Both ways to read a key go on alike, and so do both ways to read what is behind it.
    split
    case' h_1 hbare =>
      refine .bind (p := Parsed.DerivedFrom tokens .key) (.ok (bareKey?_derives hbare)) ?_
    case' h_2 =>
      refine .bind ((parseConditional_derives tokens).mono fun _ ⟨ts, hts, he⟩ =>
        (⟨ts, hts, .key he⟩ : Parsed.DerivedFrom tokens .key _)) ?_
    all_goals
      rintro ⟨key, rest, h⟩ ⟨ts, hts, hkey⟩
      dsimp only at hts ⊢
      split
      case' h_1 heat =>
        refine .bind (p := TakesSign rest) (.ok ⟨_, .inl rfl, eat?_takes heat⟩) ?_
      case' h_2 =>
        refine .bind ((expect_takes .colon rest).mono fun _ hcolon =>
          (⟨_, .inr rfl, hcolon⟩ : TakesSign rest _)) ?_
      all_goals
        rintro ⟨rest, h₁⟩ ⟨sign, hsign, hleft⟩
        dsimp only at hleft ⊢
        refine .bind (parseConditional_derives rest) fun ⟨e, rest, h₂⟩ ⟨ts₁, hts₁, he⟩ => ?_
        dsimp only at hts₁ ⊢
        cases heat : eat? .comma rest with
        | some left =>
          obtain ⟨left, h₃⟩ := left
          have hcomma := eat?_takes heat
          dsimp only at hcomma ⊢
          refine .bind (parseEntries_derives left) fun p ⟨ts₂, hts₂, hentries⟩ => ?_
          exact .ok ⟨_, by simp [hts, hleft, hts₁, hcomma, hts₂],
            .entries_cons hkey hsign he (.inl rfl) hentries⟩
        | none =>
          dsimp only
          refine .bind (parseEntries_derives rest) fun p ⟨ts₂, hts₂, hentries⟩ => ?_
          exact .ok ⟨_, by simp [hts, hleft, hts₁, hts₂],
            .entries_cons hkey hsign he (.inr rfl) hentries⟩
termination_by (Spanned.totalWeight tokens, 11)
decreasing_by all_goals simp [Prod.lex_def, -IsEmpty.forall_iff] at * <;> omega
end

end Deployment.Expr
