import Deployment.Draft.Evaluation
import Deployment.Proofs.Syntax.Derivation
import Deployment.Proofs.Syntax.Pieces
import Deployment.Proofs.Syntax.Quoting
import Deployment.Proofs.Syntax.Rereading
import Mathlib

/-! # Expressions in braces

The end of an interpolation is found by a search that knows quotes, apostrophes, backslashes and
braces, and nothing of tokens. It ends where it should: the search passes over every lexeme that is
not a brace as a whole, because it agrees with the lexer on where quoted text ends
(`Lexemes.skips`), and in everything that the parser accepts each brace that is opened is closed
again (`Derives.nests`). So each text that is an expression can be put in braces
(`parse_embedded`).
-/

namespace Deployment

/-! ## Searches in front of more text -/

namespace Template

/-- A search that has passed some characters goes on as the search behind them does. -/
theorem map_add_drop (passed : List Char) {found found' : Option Nat}
    {after : List Char → Option Nat} {rest tail : List Char} {n : Nat}
    (h : found.map (· + passed.length) = some n)
    (hfound : ∀ {m}, found = some m →
      found' = (after (rest.drop (m + 1) ++ tail)).map (· + (m + 1))) :
    found'.map (· + passed.length) =
      (after ((passed ++ rest).drop (n + 1) ++ tail)).map (· + (n + 1)) := by
  obtain ⟨m, hm, rfl⟩ := Option.map_eq_some_iff.mp h
  have hdrop : (passed ++ rest).drop (m + passed.length + 1) = rest.drop (m + 1) := by
    rw [show m + passed.length + 1 = passed.length + (m + 1) by omega, ← List.drop_drop,
      List.drop_left]
  rw [hfound hm, hdrop, Option.map_map]
  refine congrArg (Option.map · _) (funext fun k => ?_)
  simp only [Function.comp_apply]
  omega

/-- Quoted text does not end in the middle of a marker. -/
theorem Inert.append {sign : Char} {s : List Char} (h : Inert sign s) (hsign : isSign sign)
    {outer : List Scope} {n : Nat} (hend : closing .quoted outer s = some n) (tail : List Char) :
    Inert sign (s ++ tail) := by
  cases s with
  | nil => cases hend
  | cons c rest =>
    refine ⟨h.brace, fun rest' heq => ?_⟩
    obtain ⟨hc, heq⟩ := List.cons.inj heq
    -- At its end the text would start no marker, but then nothing would close it.
    cases rest with
    | nil =>
      rw [hc] at hend
      rcases hsign with rfl | rfl <;> cases hend
    | cons d rest =>
      obtain ⟨hd, -⟩ := List.cons.inj heq
      exact h.doubled rest (by rw [hc, hd])

/-- Between apostrophes the search passes every character but backslashes and apostrophes. -/
theorem closing_apostrophes_cons {c : Char} (hbackslash : c ≠ '\\') (hapostrophe : c ≠ '\'')
    (outer : List Scope) (s : List Char) :
    closing .apostrophes outer (c :: s) = (closing .apostrophes outer s).map (· + 1) := by
  rw [closing]
  all_goals
    intros
    contradiction

/-- What closes all scopes closes only the inner ones when there are others around them. -/
theorem closing_append {scope : Scope} {inner : List Scope} {s : List Char} {n : Nat}
    (h : closing scope inner s = some n) (scope' : Scope) (outer : List Scope) (tail : List Char) :
    closing scope (inner ++ scope' :: outer) (s ++ tail) =
      (closing scope' outer (s.drop (n + 1) ++ tail)).map (· + (n + 1)) := by
  -- Along the search. Each case makes the same step in front of the longer text, which has the same
  -- first characters, and the induction hypothesis goes on from there.
  fun_induction closing scope inner s generalizing n with
  | case1 => cases h
  | case2 => cases h
  | case3 inner c rest ih =>
    rw [List.cons_append, List.cons_append, closing]
    exact map_add_drop ['\\', c] h ih
  | case4 =>
    obtain rfl := Option.some.inj h
    rw [List.nil_append, List.cons_append, closing]
    rfl
  | case5 scope inner rest ih =>
    rw [List.cons_append, List.cons_append, closing]
    exact map_add_drop ['"'] h ih
  | case6 inner rest ih =>
    rw [List.cons_append, List.cons_append, List.cons_append, closing]
    exact map_add_drop ['$', '$', '\x7b'] h ih
  | case7 inner rest ih =>
    rw [List.cons_append, List.cons_append, List.cons_append, closing]
    exact map_add_drop ['%', '%', '\x7b'] h ih
  | case8 inner rest ih =>
    rw [List.cons_append, List.cons_append, closing]
    exact map_add_drop ['$', '\x7b'] h ih
  | case9 inner rest ih =>
    rw [List.cons_append, List.cons_append, closing]
    exact map_add_drop ['%', '\x7b'] h ih
  | case10 inner c rest hend hescape hlast hinner hdollars hpercents hdollar hpercent ih =>
    have hordinary : c ≠ '\\' ∧ c ≠ '"' := ⟨ne_backslash hend hescape, ne_close hlast hinner⟩
    -- A sign that starts no marker in this text starts none in the longer one.
    have hinert : isSign c → Inert c (rest ++ tail) := by
      intro hsign
      obtain ⟨m, hm, -⟩ := Option.map_eq_some_iff.mp h
      refine Inert.append ⟨fun hbrace => ?_, fun rest' heq => ?_⟩ hsign hm tail
      · obtain ⟨rest', rfl⟩ : ∃ rest', rest = '\x7b' :: rest' := by
          cases rest with
          | nil => cases hbrace
          | cons d rest => exact ⟨rest, by simpa using hbrace⟩
        rcases hsign with hc | hc
        · exact hdollar rest' hc rfl
        · exact hpercent rest' hc rfl
      · rcases hsign with rfl | rfl
        · exact hdollars rest' rfl heq
        · exact hpercents rest' rfl heq
    rw [List.cons_append, closing_quoted_cons hordinary hinert]
    exact map_add_drop [c] h ih
  | case11 inner rest ih =>
    rw [List.cons_append, closing]
    exact map_add_drop ['"'] h ih
  | case12 inner rest ih =>
    rw [List.cons_append, closing]
    exact map_add_drop ['\''] h ih
  | case13 inner rest ih =>
    rw [List.cons_append, closing]
    exact map_add_drop ['\x7b'] h ih
  | case14 =>
    obtain rfl := Option.some.inj h
    rw [List.nil_append, List.cons_append, closing]
    rfl
  | case15 scope inner rest ih =>
    rw [List.cons_append, List.cons_append, closing]
    exact map_add_drop ['\x7d'] h ih
  | case16 inner c rest hquote hapostrophe hopen hlast hinner ih =>
    have hplain : c ∉ ['"', '\'', '\x7b', '\x7d'] := by
      simpa using ⟨hquote, hapostrophe, hopen, ne_close hlast hinner⟩
    rw [List.cons_append, Token.closing_braces_cons hplain]
    exact map_add_drop [c] h ih
  | case17 => cases h
  | case18 inner c rest ih =>
    rw [List.cons_append, List.cons_append, closing]
    exact map_add_drop ['\\', c] h ih
  | case19 =>
    obtain rfl := Option.some.inj h
    rw [List.nil_append, List.cons_append, closing]
    rfl
  | case20 scope inner rest ih =>
    rw [List.cons_append, List.cons_append, closing]
    exact map_add_drop ['\''] h ih
  | case21 inner c rest hend hescape hlast hinner ih =>
    rw [List.cons_append,
      closing_apostrophes_cons (ne_backslash hend hescape) (ne_close hlast hinner)]
    exact map_add_drop [c] h ih

/-- The lexer finds the same end of text between apostrophes. -/
theorem closing_of_apostrophed {s content : List Char} {n : Nat}
    (h : Token.apostrophed s = some (content, n)) : closing .apostrophes [] s = some n := by
  fun_induction Token.apostrophed s generalizing content n with
  | case1 => cases h
  | case2 =>
    cases h
    rw [closing]
  | case3 => cases h
  | case4 c rest decoded =>
    rename_i ih
    obtain ⟨⟨content', m⟩, hm, heq⟩ := Option.map_eq_some_iff.mp h
    obtain ⟨-, rfl⟩ := Prod.mk.inj heq
    rw [closing, ih hm]
    rfl
  | case5 c rest hapostrophe hend hescape ih =>
    obtain ⟨⟨content', m⟩, hm, heq⟩ := Option.map_eq_some_iff.mp h
    obtain ⟨-, rfl⟩ := Prod.mk.inj heq
    rw [closing_apostrophes_cons (ne_backslash hend hescape) hapostrophe, ih hm]
    rfl

end Template

/-! ## Lexemes -/

namespace Token

open Template (closing closing_append closing_of_apostrophed)

/-- A character that neither opens nor closes anything between braces. -/
abbrev Inside (c : Char) : Prop :=
  c ∉ ['"', '\'', '\x7b', '\x7d']

/-- Digits neither open nor close anything. -/
theorem inside_of_isDigit {c : Char} (h : c.isDigit) : Inside c :=
  not_delimiter_of_continuesName (Text.continuesName_of_isDigit h)

/-- Blanks neither open nor close anything. -/
theorem inside_of_isBlank {c : Char} (h : Text.isBlank c) : Inside c := by
  have hall : ['"', '\'', '\x7b', '\x7d'].all (!Text.isBlank ·) := by decide
  intro hmem
  simpa [h] using List.all_eq_true.mp hall c hmem

/-- A run of digits neither opens nor closes anything. -/
theorem inside_digits {s : List Char} {c : Char} (hc : c ∈ s.take (runLength Char.isDigit s)) :
    Inside c := by
  rw [take_runLength] at hc
  exact inside_of_isDigit (List.mem_takeWhile_imp hc)

/-- The point and the digits behind it neither open nor close anything. -/
theorem inside_fraction {s : List Char} {c : Char} (hc : c ∈ s.take (fractionLength s)) :
    Inside c := by
  unfold fractionLength at hc
  split at hc
  · rename_i rest
    dsimp only at hc
    split at hc
    · cases hc
    · rw [List.take_succ_cons] at hc
      rcases List.mem_cons.mp hc with rfl | hc
      · decide
      · exact inside_digits hc
  · cases hc

/-- The sign of an exponent neither opens nor closes anything. -/
theorem inside_sign {s : List Char} {c : Char} (hc : c ∈ s.take (signLength s)) : Inside c := by
  unfold signLength at hc
  split at hc
  · rename_i hsign
    cases s with
    | nil => cases hc
    | cons d rest =>
      obtain rfl : c = d := by simpa using hc
      rcases hsign with hsign | hsign
      · obtain rfl : c = '+' := by simpa using hsign
        decide
      · obtain rfl : c = '-' := by simpa using hsign
        decide
  · cases hc

/-- An exponent, with its letter and its sign, neither opens nor closes anything. -/
theorem inside_exponent {s : List Char} {c : Char} (hc : c ∈ s.take (exponentLength s)) :
    Inside c := by
  cases s with
  | nil => cases hc
  | cons e rest =>
    rw [exponentLength] at hc
    split at hc
    · rename_i he
      rw [Nat.add_assoc, Nat.add_comm 1, List.take_succ_cons, List.take_add] at hc
      rcases List.mem_cons.mp hc with rfl | hc
      · rcases he.1 with rfl | rfl <;> decide
      rcases List.mem_append.mp hc with hc | hc
      · exact inside_sign hc
      · exact inside_digits hc
    · cases hc

/-- A number is passed as a whole: its digits, its fraction and its exponent. -/
theorem inside_number {s : List Char} {c : Char} (hc : c ∈ s.take (numberLength s)) :
    Inside c := by
  rw [numberLength, List.take_add, List.take_add] at hc
  rcases List.mem_append.mp hc with hc | hc
  · rcases List.mem_append.mp hc with hc | hc
    · exact inside_digits hc
    · exact inside_fraction hc
  · exact inside_exponent hc

/-- Of the symbols only the braces have an effect on the search. -/
theorem inside_symbol {s : List Char} {sym : Symbol} {n : Nat} (h : symbol? s = some (sym, n))
    (hopen : sym ≠ .openBrace) (hclose : sym ≠ .closeBrace) {c : Char} (hc : c ∈ s.take n) :
    Inside c := by
  revert h
  fun_cases symbol? s
  all_goals
    intro h
    cases h
  -- The braces are excluded, and a symbol has three characters at most.
  case case25 => exact absurd rfl hopen
  case case26 => exact absurd rfl hclose
  all_goals
    simp only [List.take_succ_cons, List.take_zero, List.mem_cons, List.not_mem_nil, or_false] at hc
    rcases hc with rfl | rfl | rfl <;> decide

/-- The search passes over a lexeme that is not a brace. -/
theorem Spells.skips {c : Char} {rest : List Char} {t : Token} {n : Nat} (h : Spells c rest t n)
    (hopen : t ≠ .symbol .openBrace)
    (hclose : t ≠ .symbol .closeBrace) (outer : List Template.Scope) (tail : List Char) :
    closing .braces outer (c :: rest ++ tail) =
      (closing .braces outer ((c :: rest).drop n ++ tail)).map (· + n) := by
  -- A string is entered and left again by searches of its own, so the search within the braces goes
  -- on behind it.
  have string {scope : Template.Scope} {m : Nat} (hm : closing scope [] rest = some m)
      (hstep : closing .braces outer (c :: rest ++ tail) =
        (closing scope (.braces :: outer) (rest ++ tail)).map (· + 1)) :
      closing .braces outer (c :: rest ++ tail) =
        (closing .braces outer ((c :: rest).drop (m + 2) ++ tail)).map (· + (m + 2)) := by
    rw [hstep]
    exact Template.map_add_drop [c] (congrArg (Option.map (· + 1)) hm) fun hm =>
      closing_append hm .braces outer tail
  -- Outside of strings one character is passed after the other.
  have plainly (hinside : ∀ d ∈ (c :: rest).take n, Inside d) :
      closing .braces outer (c :: rest ++ tail) =
        (closing .braces outer ((c :: rest).drop n ++ tail)).map (· + n) := by
    have happend := closing_braces_append hinside outer ((c :: rest).drop n ++ tail)
    rwa [← List.append_assoc, List.take_append_drop, List.length_take,
      Nat.min_eq_left h.length_le] at happend
  cases h with
  | quoted hc hm =>
    subst hc
    exact string hm (by rw [List.cons_append, closing])
  | text hc hm =>
    subst hc
    exact string (closing_of_apostrophed hm) (by rw [List.cons_append, closing])
  | symbol hs =>
    refine plainly fun d hd => inside_symbol hs ?_ ?_ hd
    · rintro rfl
      exact hopen rfl
    · rintro rfl
      exact hclose rfl
  | number hc hn =>
    refine plainly fun d hd => ?_
    rcases Nat.le_total 1 (numberLength (c :: rest)) with hlt | hlt
    · rw [hn, Nat.max_eq_right hlt] at hd
      exact inside_number hd
    · rw [hn, Nat.max_eq_left hlt] at hd
      obtain rfl := List.mem_singleton.mp hd
      exact inside_of_isDigit hc
  | name hc hn =>
    refine plainly fun d hd => not_delimiter_of_continuesName ?_
    rw [hn, Nat.add_comm 1, List.take_succ_cons, take_runLength] at hd
    rcases List.mem_cons.mp hd with rfl | hd
    · exact Text.continuesName_of_startsName hc
    · exact List.mem_takeWhile_imp hd

/-- A brace is spelled by itself. -/
theorem symbol?_brace {s : List Char} {sym : Symbol} {n : Nat} (h : symbol? s = some (sym, n)) :
    (sym = .openBrace → s.head? = some '\x7b' ∧ n = 1) ∧
      (sym = .closeBrace → s.head? = some '\x7d' ∧ n = 1) := by
  revert h
  fun_cases symbol? s
  all_goals
    intro h
    cases h <;> simp

/-- The token of an opening brace is spelled by that brace only. -/
theorem Spells.openBrace {c : Char} {rest : List Char} {n : Nat}
    (h : Spells c rest (.symbol .openBrace) n) : c = '\x7b' ∧ n = 1 := by
  cases h with
  | symbol h => simpa using (symbol?_brace h).1 rfl

/-- The token of a closing brace is spelled by that brace only. -/
theorem Spells.closeBrace {c : Char} {rest : List Char} {n : Nat}
    (h : Spells c rest (.symbol .closeBrace) n) : c = '\x7d' ∧ n = 1 := by
  cases h with
  | symbol h => simpa using (symbol?_brace h).2 rfl

/-! ## Nested braces -/

/-- Tokens that lead from one number of open braces to another, and that close none which was not
open. -/
inductive Nests : Nat → List Token → Nat → Prop
  | nil (depth : Nat) : Nests depth [] depth
  | opening {depth depth' : Nat} {ts : List Token} (h : Nests (depth + 1) ts depth') :
      Nests depth (.symbol .openBrace :: ts) depth'
  | closing {depth depth' : Nat} {ts : List Token} (h : Nests depth ts depth') :
      Nests (depth + 1) (.symbol .closeBrace :: ts) depth'
  | other {depth depth' : Nat} {t : Token} {ts : List Token} (hopen : t ≠ .symbol .openBrace)
      (hclose : t ≠ .symbol .closeBrace) (h : Nests depth ts depth') : Nests depth (t :: ts) depth'

/-- Tokens that lead from one number of open braces to a second, and tokens that lead from there to
a third, lead from the first to the third. -/
theorem Nests.append {a b c : Nat} {ts ts' : List Token} (h : Nests a ts b) (h' : Nests b ts' c) :
    Nests a (ts ++ ts') c := by
  induction h with
  | nil => exact h'
  | opening _ ih => exact .opening (ih h')
  | closing _ ih => exact .closing (ih h')
  | other hopen hclose _ ih => exact .other hopen hclose (ih h')

/-- The search passes over the text of tokens, with one scope for each brace that is open. -/
theorem Lexemes.skips {s : List Char} {ts : List Token} (h : Lexemes s ts) {depth depth' : Nat}
    (hnests : Nests depth ts depth') (outer : List Template.Scope) (tail : List Char) :
    closing .braces (List.replicate depth .braces ++ outer) (s ++ tail) =
      (closing .braces (List.replicate depth' .braces ++ outer) tail).map (· + s.length) := by
  -- Along the lexemes. A brace adds a scope or removes one, all other lexemes are passed.
  induction h generalizing depth with
  | nil =>
    cases hnests with
    | other _ _ h =>
      cases h
      simp
  | @blank c s ts hc _ ih =>
    rw [List.cons_append, closing_braces_cons (inside_of_isBlank hc), ih hnests, Option.map_map]
    rfl
  | @lexeme c rest t n ts ht hts ih =>
    have hlength : ((c :: rest).drop n).length + n = (c :: rest).length := by
      have hle := ht.length_le
      rw [List.length_drop]
      omega
    have hpassed {found : Option Nat} : (found.map (· + ((c :: rest).drop n).length)).map (· + n) =
        found.map (· + (c :: rest).length) := by
      rw [Option.map_map, ← hlength]
      refine congrArg (Option.map · _) (funext fun k => ?_)
      exact Nat.add_assoc _ _ _
    rw [← hpassed]
    cases hnests with
    | opening h =>
      obtain ⟨rfl, rfl⟩ := ht.openBrace
      rw [← ih h, List.cons_append, Template.closing]
      rfl
    | closing h =>
      obtain ⟨rfl, rfl⟩ := ht.closeBrace
      rw [← ih h, List.replicate_succ, List.cons_append, List.cons_append, Template.closing]
      rfl
    | other hopen hclose h =>
      rw [← ih h]
      exact ht.skips hopen hclose _ tail

end Token

/-! ## Everything that is read -/

namespace Expr

open Token (Nests Lexemes enclosed)

/-- The tokens of a phrase close the braces that they open. Those of entries close one more. -/
def Phrase.Nests : Phrase → Prop
  | .entries ts _ => ∀ depth, Token.Nests (depth + 1) ts depth
  | .items close ts _ => close ∉ [.openBrace, .closeBrace] → ∀ depth, Token.Nests depth ts depth
  | p => ∀ depth, Token.Nests depth p.tokens depth

/-- A symbol that is no brace leaves the number of open braces as it is. -/
theorem nests_symbol {s : Symbol} (hs : s ∉ [.openBrace, .closeBrace]) {depth depth' : Nat}
    {ts : List Token} (h : Nests depth ts depth') : Nests depth (.symbol s :: ts) depth' := by
  simp only [List.mem_cons, List.not_mem_nil, or_false, not_or] at hs
  exact .other (by simpa using hs.1) (by simpa using hs.2) h

/-- Brackets and parentheses leave the number of open braces as it is, if the tokens between them
do. -/
theorem nests_enclosed {opening closing : Symbol} (hopening : opening ∉ [.openBrace, .closeBrace])
    (hclosing : closing ∉ [.openBrace, .closeBrace]) {depth : Nat} {ts : List Token}
    (h : Nests depth ts depth) : Nests depth (enclosed opening closing ts) depth :=
  nests_symbol hopening (h.append (nests_symbol hclosing (.nil depth)))

/-- The attributes behind a name have no braces. -/
theorem nests_path (path : List String) (depth : Nat) :
    Nests depth (Reads.pathTokens path) depth := by
  induction path with
  | nil => exact .nil depth
  | cons name path ih => exact nests_symbol (by decide) (.other nofun nofun ih)

/-- In everything that the grammar derives, each brace that is opened is closed again. Only maps are
written in braces, and their entries come with the brace that closes them. -/
theorem Derives.nests {p : Phrase} (h : Derives p) : p.Nests := by
  -- The depth is a variable of the claim: what stands between braces is one deeper.
  induction h with
  | number | text | quoted | bool | null | name_key =>
    exact fun depth => .other nofun nofun (.nil depth)
  | reference _ path => exact fun depth => .other nofun nofun (nests_path path depth)
  | call _ _ ih =>
    exact fun depth => .other nofun nofun (nests_symbol (by decide) (ih (by decide) depth))
  | parens _ ih => exact fun depth => nests_enclosed (by decide) (by decide) (ih depth)
  | list _ ih => exact fun depth => nests_symbol (by decide) (ih (by decide) depth)
  | map _ ih => exact fun depth => .opening (ih depth)
  | access _ name ih =>
    exact fun depth => (ih depth).append (nests_path [name] depth)
  | position _ _ ih =>
    exact fun depth => (ih depth).append (nests_symbol (by decide) (.other nofun nofun (.nil depth)))
  | index _ _ ih ihkey =>
    exact fun depth => (ih depth).append (nests_enclosed (by decide) (by decide) (ihkey depth))
  | unary op _ ih =>
    exact fun depth => nests_symbol (by cases op <;> decide) (ih depth)
  | binary op _ _ ihleft ihright =>
    have hop : op.token ∉ [.openBrace, .closeBrace] := operator_not_mem op (by decide)
    exact fun depth => (ihleft depth).append (nests_symbol hop (ihright depth))
  | conditional _ _ _ ih ihyes ihno =>
    intro depth
    have hno := nests_symbol (s := .colon) (by decide) (ihno depth)
    exact (ih depth).append (nests_symbol (by decide) ((ihyes depth).append hno))
  | items_nil close => exact fun hclose depth => nests_symbol hclose (.nil depth)
  | items_last close _ ih =>
    exact fun hclose depth => (ih depth).append (nests_symbol hclose (.nil depth))
  | items_cons _ _ ih ihitems =>
    exact fun hclose depth => (ih depth).append (nests_symbol (by decide) (ihitems hclose depth))
  | key _ ih => exact ih
  | entries_nil => exact fun depth => .closing (.nil depth)
  | @entries_cons ts ts₁ ts₂ comma key e entries sign _ hsign _ hcomma _ ihkey ih ihentries =>
    intro depth
    have hnoBrace : sign ∉ [.openBrace, .closeBrace] := by
      rcases hsign with rfl | rfl <;> decide
    have hrest : Nests (depth + 1) (comma ++ ts₂) depth := by
      rcases hcomma with rfl | rfl
      · exact nests_symbol (by decide) (ihentries depth)
      · exact ihentries depth
    exact (ihkey (depth + 1)).append (nests_symbol hnoBrace ((ih (depth + 1)).append hrest))
  | source | template_nil | marker | interpolation | escaped | plain =>
    exact fun depth => .nil depth

/-- The search for the end of an interpolation passes over the text of an expression. -/
theorem closing_of_parseText {s : List Char} {e : Expr} (h : parseText s = .ok e)
    (tail : List Char) : Template.closing .braces [] (s ++ '\x7d' :: tail) = some s.length := by
  cases parseText_derives s e h with
  | source hs he =>
    have hend : Nests 0 [.eof] 0 := .other nofun nofun (.nil 0)
    have hskips := hs.skips ((he.nests 0).append hend) [] ('\x7d' :: tail)
    rw [List.replicate_zero, List.nil_append, Template.closing] at hskips
    simpa using hskips

/-- A text that is an expression can be put in braces, within quotes and outside of them. The
template is this one interpolation, and it has the value of the expression. -/
theorem parse_embedded {s : String} {e : Expr} (h : parse s = .ok e) :
    (∀ inQuotes, Template.parse ("$\x7b" ++ s ++ "\x7d") inQuotes = .ok [.interpolation e]) ∧
      ∀ context location,
        (Draft.interpolation s).evaluate context location = e.evaluate context location := by
  have htext : ("$\x7b" ++ s ++ "\x7d").toList = '$' :: '\x7b' :: (s.toList ++ ['\x7d']) := by
    simp
  have hparse := parse_interpolation htext (closing_of_parseText h []) h
  refine ⟨hparse, fun context location => ?_⟩
  rw [Draft.interpolation, Draft.evaluate, Template.evaluateText, hparse]
  dsimp only
  rw [Template.evaluate, evaluate]

/-- Braces in a text between apostrophes, and in quoted text within an interpolation. -/
def nested : String :=
  "\x7bx='\\'\x7d',y=\"$\x7b\"\x7d\"\x7d\"\x7d"

/-- The braces that are not part of the map are in quoted text or between apostrophes. -/
theorem parse_nested : parse nested = .ok (.map
    [(.literal (.text "x"), .literal (.text "'\x7d")),
      (.literal (.text "y"), .template [.interpolation (.literal (.text "\x7d"))])]) := by
  cbv

/-- The value of the embedded expression. -/
theorem parse_embedded_nested : ∃ e, parse nested = .ok e ∧
    (∀ inQuotes, Template.parse ("$\x7b" ++ nested ++ "\x7d") inQuotes = .ok [.interpolation e]) ∧
    ∀ context location,
      (Draft.interpolation nested).evaluate context location = e.evaluate context location :=
  ⟨_, parse_nested, parse_embedded parse_nested⟩

end Expr

end Deployment
