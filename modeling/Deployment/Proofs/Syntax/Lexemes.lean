import Deployment.Proofs.Ensures
import Deployment.Proofs.Syntax.Lexing

/-! # The lexemes of a text

`Spells c rest t n` says what one lexeme can be: a token and the number of characters that spell it.
`Lexemes s ts` is the way in which the lexer has cut a whole text, blank by blank and lexeme by
lexeme. What holds of every lexeme holds of all tokens of a text: names are names, numbers start
with a digit, and the end of the text is the last token and no other.
-/

namespace Deployment.Token

/-! ## One lexeme -/

/-- The token at the start of a text that starts with `c`, and the number of its characters. -/
inductive Spells (c : Char) (rest : List Char) : Token → Nat → Prop
  | quoted {n : Nat} (hc : c = '"') (hn : Template.closing .quoted [] rest = some n) :
      Spells c rest (.quoted (rest.take n)) (n + 2)
  | text {content : List Char} {n : Nat} (hc : c = '\'')
      (hn : apostrophed rest = some (content, n)) :
      Spells c rest (.text (String.ofList content)) (n + 2)
  | symbol {s : Symbol} {n : Nat} (h : symbol? (c :: rest) = some (s, n)) :
      Spells c rest (.symbol s) n
  | number {n : Nat} (hc : c.isDigit) (hn : n = max 1 (numberLength (c :: rest))) :
      Spells c rest (.number (String.ofList ((c :: rest).take n))) n
  | name {n : Nat} (hc : Text.startsName c) (hn : n = 1 + runLength Text.continuesName rest) :
      Spells c rest (.name (String.ofList ((c :: rest).take n))) n

/-- A lexeme that is read is spelled by the characters at the start of the text. -/
theorem lexeme_spells (c : Char) (rest : List Char) :
    Ensures (lexeme c rest) fun l => Spells c rest l.token l.length := by
  unfold lexeme
  split
  · rename_i hc
    split
    · exact .error _
    · rename_i n hn
      exact .ok (.quoted hc hn)
  split
  · rename_i hc
    split
    · exact .error _
    · rename_i content n hn
      exact .ok (.text hc hn)
  split
  · rename_i s n h
    exact .ok (.symbol h)
  dsimp only
  split
  · rename_i hc
    exact .ok (.number hc rfl)
  split
  · rename_i hc
    exact .ok (.name hc rfl)
  · exact .error _

/-- A run is the longest front of a text with characters of one kind. -/
theorem take_runLength (p : Char → Bool) (s : List Char) : s.take (runLength p s) = s.takeWhile p :=
  (List.prefix_iff_eq_take.mp (List.takeWhile_prefix p)).symm

/-- A lexeme does not reach behind the end of the text. -/
theorem Spells.length_le {c : Char} {rest : List Char} {t : Token} {n : Nat}
    (h : Spells c rest t n) : n ≤ (c :: rest).length := by
  rw [List.length_cons]
  cases h with
  | quoted _ hn =>
    have := Template.closing_lt_length hn
    omega
  | text _ hn =>
    have := apostrophed_lt hn
    omega
  | symbol h => exact (symbol?_length h).2
  | number _ hn =>
    have := numberLength_le (c :: rest)
    rw [List.length_cons] at this
    omega
  | name _ hn =>
    have := runLength_le Text.continuesName rest
    omega

/-- A spelling without a sign: it starts with a digit. -/
def Unsigned (s : String) : Prop :=
  ∃ c rest, s.toList = c :: rest ∧ c.isDigit

/-- A token as the lexer makes it. -/
def Proper : Token → Prop
  | .name s => Text.IsName s
  | .number s => Unsigned s
  | .eof => False
  | _ => True

/-- The lexer makes names that are names and numbers that start with a digit. -/
theorem Spells.proper {c : Char} {rest : List Char} {t : Token} {n : Nat}
    (h : Spells c rest t n) : t.Proper := by
  cases h with
  | number hc hn =>
    refine ⟨c, rest.take (n - 1), ?_, hc⟩
    rw [String.toList_ofList, List.take_cons (by omega)]
  | name hc hn =>
    rw [hn, Nat.add_comm 1, List.take_succ_cons, take_runLength, Proper, Text.IsName,
      String.toList_ofList]
    exact ⟨hc, List.all_takeWhile⟩
  | _ => trivial

/-! ## All lexemes -/

/-- The text consists of blanks and of lexemes with these tokens. -/
inductive Lexemes : List Char → List Token → Prop
  | nil : Lexemes [] [.eof]
  | blank {c : Char} {s : List Char} {ts : List Token} (hc : Text.isBlank c) (h : Lexemes s ts) :
      Lexemes (c :: s) ts
  | lexeme {c : Char} {rest : List Char} {t : Token} {n : Nat} {ts : List Token}
      (ht : Spells c rest t n) (h : Lexemes ((c :: rest).drop n) ts) : Lexemes (c :: rest) (t :: ts)

/-- Blanks in front of a text add no tokens. -/
theorem Lexemes.blanks {blanks s : List Char} {ts : List Token}
    (hblanks : ∀ b ∈ blanks, Text.isBlank b) (h : Lexemes s ts) : Lexemes (blanks ++ s) ts := by
  induction blanks with
  | nil => exact h
  | cons c blanks ih =>
    obtain ⟨hc, hblanks⟩ := List.forall_mem_cons.mp hblanks
    exact .blank hc (ih hblanks)

/-- The lexer cuts the text into lexemes, at whatever position it starts to count. -/
theorem tokensFrom_lexemes (position : Nat) (s : List Char) :
    Ensures (tokensFrom position s) fun spanned => Lexemes s (spanned.map Spanned.token) := by
  refine tokensFrom_induct
    (motive := fun _ s r => Ensures r fun spanned => Lexemes s (spanned.map Spanned.token))
    (fun position blanks hblanks => ?_) (fun position blanks c rest cause _ _ => .error _)
    (fun position blanks c rest l behind hblanks hl ih => ?_) position s
  · rw [← List.append_nil blanks]
    exact .ok (Lexemes.nil.blanks hblanks)
  · exact ih.map fun spanned h => .blanks hblanks (.lexeme (lexeme_spells c rest l hl) h)

/-- A whole text is cut into lexemes, and these make its tokens. -/
theorem tokenize_lexemes (s : List Char) :
    Ensures (tokenize s) fun tokens => Lexemes s (tokens.val.map Spanned.token) := by
  intro tokens h
  exact tokensFrom_lexemes 0 s tokens.val (tokensFrom_of_tokenize h)

/-- The tokens are made by the lexer, and the end of the text stands behind them. -/
theorem Lexemes.proper {s : List Char} {ts : List Token} (h : Lexemes s ts) :
    ∃ front, ts = front ++ [.eof] ∧ ∀ t ∈ front, t.Proper := by
  induction h with
  | nil => exact ⟨[], rfl, by simp⟩
  | blank _ _ ih => exact ih
  | @lexeme c rest t n ts ht _ ih =>
    obtain ⟨front, rfl, hfront⟩ := ih
    exact ⟨t :: front, rfl, List.forall_mem_cons.mpr ⟨ht.proper, hfront⟩⟩

end Deployment.Token
