import Deployment.Proofs.Syntax.Lexing
import Deployment.Proofs.Syntax.Tokens
import Mathlib.Data.List.Forall2

/-! # Pieces of text and their tokens

A piece of text is `Spelled` by tokens if putting it in front of any text that may follow puts the
tokens in front of the tokens of that text. What may follow depends on the piece: a name must not be
followed by a letter, after a parenthesis everything goes. Pieces are put together with
`Spelled.append`.

The same pieces stand between the braces of interpolations, where `Template.closing` looks for the
end. A spelled piece leaves no scope open, so the search passes over it.
-/

namespace Deployment.Token

open Template (closing)

/-- A piece of text that is cut into the given tokens in front of every text that may follow, and
that leaves no scope open. -/
structure Spelled (follows : List Char → Prop) (s : List Char) (ts : List Token) : Prop where
  lexes : ∀ tail rest, follows tail → Lexes tail rest → Lexes (s ++ tail) (ts ++ rest)
  skips : ∀ outer tail, closing .braces outer (s ++ tail) =
    (closing .braces outer tail).map (· + s.length)

/-- Any text at all. -/
abbrev Anything : List Char → Prop := fun _ => True

/-- Texts with a comma and a blank between them. -/
def joined : List (List Char) → List Char
  | [] => []
  | [s] => s
  | s :: rest => s ++ ',' :: ' ' :: joined rest

/-! ## The search for the closing brace -/

/-- A character that is no delimiter is passed. -/
theorem closing_braces_cons {c : Char} (hc : c ∉ ['"', '\'', '\x7b', '\x7d'])
    (outer : List Template.Scope) (rest : List Char) :
    closing .braces outer (c :: rest) = (closing .braces outer rest).map (· + 1) := by
  simp only [List.mem_cons, List.not_mem_nil, or_false, not_or] at hc
  rw [closing] <;> simp_all

/-- A piece of text without delimiters is passed. -/
theorem closing_braces_append {s : List Char} (hs : ∀ c ∈ s, c ∉ ['"', '\'', '\x7b', '\x7d'])
    (outer : List Template.Scope) (tail : List Char) :
    closing .braces outer (s ++ tail) = (closing .braces outer tail).map (· + s.length) := by
  induction s with
  | nil => simp
  | cons c rest ih =>
    rw [List.cons_append, closing_braces_cons (hs c (by simp)),
      ih fun d hd => hs d (List.mem_cons_of_mem _ hd), Option.map_map]
    rfl

/-- No character of a name is a delimiter. -/
theorem not_delimiter_of_continuesName {c : Char} (h : Text.continuesName c) :
    c ∉ ['"', '\'', '\x7b', '\x7d'] := by
  have hall : ['"', '\'', '\x7b', '\x7d'].all (!Text.continuesName ·) := by decide
  intro hmem
  simpa [h] using List.all_eq_true.mp hall c hmem

/-- A character that neither separates tokens nor opens or closes a scope. -/
def isPlain (c : Char) : Bool :=
  !Text.isBlank c && !List.contains ['"', '\'', '\x7b', '\x7d'] c

/-- A plain character is neither a blank nor a delimiter. -/
theorem isPlain_iff {c : Char} :
    isPlain c ↔ Text.isBlank c = false ∧ c ∉ ['"', '\'', '\x7b', '\x7d'] := by
  rw [isPlain, Bool.and_eq_true, Bool.not_eq_true', Bool.not_eq_true', List.contains_eq_mem,
    decide_eq_false_iff_not]

/-! ## Putting pieces together -/

namespace Spelled

variable {follows follows' : List Char → Prop} {s s' : List Char} {ts ts' : List Token}

/-- Less may follow. -/
theorem mono (h : Spelled follows s ts) (hf : ∀ tail, follows' tail → follows tail) :
    Spelled follows' s ts where
  lexes tail rest htail := h.lexes tail rest (hf tail htail)
  skips := h.skips

/-- Nothing is spelled by nothing. -/
theorem nil : Spelled Anything [] [] where
  lexes _ _ _ h := h
  skips := by simp

/-- Two pieces, if the second one may follow the first. -/
theorem append (h : Spelled follows s ts) (h' : Spelled follows' s' ts')
    (hf : ∀ tail, follows' tail → follows (s' ++ tail)) :
    Spelled follows' (s ++ s') (ts ++ ts') where
  lexes tail rest htail hrest := by
    rw [List.append_assoc, List.append_assoc]
    exact h.lexes _ _ (hf tail htail) (h'.lexes tail rest htail hrest)
  skips outer tail := by
    rw [List.append_assoc, h.skips, h'.skips, Option.map_map, List.length_append]
    refine congrArg (Option.map · _) (funext fun n => ?_)
    simp only [Function.comp_apply]
    omega

/-- A piece that anything may follow goes in front of every other. -/
theorem cons (h : Spelled Anything s ts) (h' : Spelled follows s' ts') :
    Spelled follows (s ++ s') (ts ++ ts') :=
  h.append h' fun _ _ => trivial

/-! ## Single tokens -/

/-- A blank stands for no token, and it ends every piece in front of it. -/
theorem blank : Spelled Anything [' '] [] where
  lexes _ _ _ h := h.blank (by decide)
  skips := closing_braces_append (by simp)

/-- A name may also be followed by a point and a digit. -/
theorem name_ended {s : String} (h : Text.IsName s) : Spelled NameEnds s.toList [.name s] := by
  obtain ⟨c, rest, heq, hc, hrest⟩ := h.cases
  refine ⟨fun tail ts htail hts => ?_, closing_braces_append fun d hd =>
    not_delimiter_of_continuesName (h.continuesName hd)⟩
  · obtain ⟨l, hl, htoken, hlength⟩ := lexeme_name hc hrest htail
    rw [heq, List.cons_append, show s = String.ofList (c :: rest) by
      rw [← heq, String.ofList_toList], ← htoken]
    refine .lexeme
      (Text.isBlank_eq_false_of_continuesName (Text.continuesName_of_startsName hc)) hl ?_
    rw [hlength, List.drop_succ_cons, List.drop_left]
    exact hts

/-- A name, in front of what neither continues it nor makes a number of it. -/
theorem name {s : String} (h : Text.IsName s) : Spelled Boundary s.toList [.name s] :=
  (name_ended h).mono fun _ htail => htail.head

/-- A number, in front of what does not continue it. -/
theorem number {s : List Char} (h : IsNumber s) :
    Spelled Boundary s [.number (String.ofList s)] := by
  refine ⟨fun tail ts htail hts => ?_, closing_braces_append fun c hc => ?_⟩
  · obtain ⟨c, rest, rfl, hblank, l, hl, htoken, hlength⟩ := lexeme_number h htail
    rw [List.cons_append, ← htoken]
    refine .lexeme hblank hl ?_
    rw [hlength, ← List.cons_append, List.drop_left]
    exact hts
  · rcases h.continuesName hc with hname | rfl
    · exact not_delimiter_of_continuesName hname
    · decide

/-- A symbol that the lexer finds in front of whatever may follow. -/
theorem symbol {s : List Char} {sym : Symbol} {follows : List Char → Prop}
    (h : ∀ tail, follows tail → symbol? (s ++ tail) = some (sym, s.length))
    (hs : s.all isPlain) : Spelled follows s [.symbol sym] := by
  have hplain (c : Char) (hc : c ∈ s) := isPlain_iff.mp (List.all_eq_true.mp hs c hc)
  refine ⟨fun tail ts htail hts => ?_, closing_braces_append fun c hc => (hplain c hc).2⟩
  exact Lexes.symbol (h tail htail) (fun c hc => (hplain c hc).1) hts

/-- A content of quoted text behind which the search for the closing quote goes on outside of all
interpolations. -/
def Contained (content : List Char) : Prop :=
  ∀ outer tail, closing .quoted outer (content ++ '"' :: tail) =
    (closing .quoted outer ('"' :: tail)).map (· + content.length)

/-- Quoted text, of which the search finds the end. It ends itself, so anything may follow. -/
theorem quoted {content : List Char} (h : Contained content) :
    Spelled Anything ('"' :: (content ++ ['"'])) [.quoted content] := by
  -- The lexer takes the quoted text as one token, and the search passes over it.
  refine ⟨fun tail ts _ hts => ?_, fun outer tail => ?_⟩
  · have hclosing : closing .quoted [] (content ++ '"' :: tail) = some content.length := by
      simp [h [] tail, closing]
    have hlexeme : ∃ l, Token.lexeme '"' (content ++ '"' :: tail) = .ok l ∧
        l.token = .quoted content ∧ l.length = content.length + 2 := by
      unfold Token.lexeme
      rw [if_pos rfl]
      split
      · rename_i heq
        rw [hclosing] at heq
        cases heq
      · rename_i n heq
        rw [hclosing] at heq
        cases heq
        exact ⟨_, rfl, by simp, rfl⟩
    obtain ⟨l, hl, htoken, hlength⟩ := hlexeme
    have heq : '"' :: (content ++ ['"']) ++ tail = '"' :: (content ++ '"' :: tail) := by simp
    rw [heq, ← htoken]
    refine Lexes.lexeme (by decide) hl ?_
    have hdrop : ('"' :: (content ++ '"' :: tail)).drop l.length = tail := by
      rw [hlength, List.drop_succ_cons, ← List.drop_drop, List.drop_left, List.drop_one,
        List.tail_cons]
    rw [hdrop]
    exact hts
  · have heq : '"' :: (content ++ ['"']) ++ tail = '"' :: (content ++ '"' :: tail) := by simp
    rw [heq, closing, h, closing]
    simp only [Option.map_map, List.length_cons, List.length_append, List.length_nil]
    refine congrArg (Option.map · _) (funext fun n => ?_)
    simp only [Function.comp_apply]
    omega

/-! ## Enclosed pieces -/

/-- A piece between two symbols, of which the second one ends it. -/
theorem bounded {a b : Char} {opening closing : Symbol}
    (ha : Spelled Anything [a] [.symbol opening]) (hb : Spelled Anything [b] [.symbol closing])
    (hends : ∀ tail, Boundary (b :: tail)) (h : Spelled Boundary s ts) :
    Spelled Anything (a :: (s ++ [b])) (enclosed opening closing ts) :=
  ha.cons (h.append hb fun tail _ => hends tail)

/-- A piece in parentheses. -/
theorem parenthesised (h : Spelled Boundary s ts) :
    Spelled Anything ('(' :: (s ++ [')'])) (enclosed .openParen .closeParen ts) :=
  bounded (symbol (fun _ _ => rfl) (by decide)) (symbol (fun _ _ => rfl) (by decide))
    (Boundary.of_ne_dot (by decide) (by decide)) h

/-- A piece in brackets. -/
theorem bracketed (h : Spelled Boundary s ts) :
    Spelled Anything ('[' :: (s ++ [']'])) (enclosed .openBracket .closeBracket ts) :=
  bounded (symbol (fun _ _ => rfl) (by decide)) (symbol (fun _ _ => rfl) (by decide))
    (Boundary.of_ne_dot (by decide) (by decide)) h

/-- Braces open a scope and close it again. -/
theorem braced (h : Spelled (· ≠ []) s ts) :
    Spelled Anything ('\x7b' :: (s ++ ['\x7d'])) (enclosed .openBrace .closeBrace ts) := by
  have heq (tail : List Char) : '\x7b' :: (s ++ ['\x7d']) ++ tail =
      '\x7b' :: (s ++ '\x7d' :: tail) := by simp
  refine ⟨fun tail rest _ hrest => ?_, fun outer tail => ?_⟩
  · rw [heq, enclosed, List.cons_append, List.append_assoc]
    refine Lexes.symbol (s := ['\x7b']) rfl (by simp; rfl) (h.lexes _ _ (by simp) ?_)
    exact Lexes.symbol (s := ['\x7d']) rfl (by simp; rfl) hrest
  · rw [heq, closing, h.skips, closing]
    simp only [Option.map_map, List.length_cons, List.length_append, List.length_nil]
    refine congrArg (Option.map · _) (funext fun n => ?_)
    simp only [Function.comp_apply]
    omega

/-! ## Pieces with something between them -/

/-- An operator between blanks. -/
theorem between {symbols a b : List Char} {sym : Symbol} {x y : List Token}
    (hsymbol : Spelled (·.head? = some ' ') symbols [.symbol sym])
    (ha : Spelled Boundary a x) (hb : Spelled follows b y) :
    Spelled follows (a ++ ' ' :: (symbols ++ ' ' :: b)) (x ++ .symbol sym :: y) := by
  have hright : Spelled follows (' ' :: (symbols ++ ' ' :: b)) (.symbol sym :: y) :=
    blank.cons (hsymbol.append (blank.cons hb) fun _ _ => rfl)
  exact ha.append hright fun _ _ => .of_ne_dot (by decide) (by decide) _

/-- The items of a list, each with its tokens. -/
theorem each {α : Type} {items : List α} {text : α → List Char} {tokens : α → List Token}
    (h : ∀ a ∈ items, Spelled Boundary (text a) (tokens a)) :
    List.Forall₂ (Spelled Boundary) (items.map text) (items.map tokens) := by
  rw [List.forall₂_map_left_iff, List.forall₂_map_right_iff, List.forall₂_same]
  exact h

/-- Items with commas between them. -/
theorem separated {texts : List (List Char)} {tss : List (List Token)}
    (h : List.Forall₂ (Spelled Boundary) texts tss) :
    Spelled Boundary (joined texts) (Token.separated tss) := by
  have comma : Spelled Anything [','] [.symbol .comma] := symbol (fun _ _ => rfl) (by decide)
  induction h with
  | nil => exact nil.mono fun _ _ => trivial
  | @cons s ts rest tss hs hrest ih =>
    cases hrest with
    | nil => exact hs
    | cons =>
      exact hs.append (comma.cons (blank.cons ih)) fun _ _ =>
        .of_ne_dot (by decide) (by decide) _

end Spelled

end Deployment.Token
