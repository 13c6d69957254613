import Deployment.ParseError
import Deployment.Template.Scope
import Deployment.Text.Blank
import Deployment.Text.Letter
import Deployment.Text.Utf8
import Deployment.Token

/-! # Reading tokens

A text is cut into lexemes, which may be separated by blanks. A lexeme is a token together with the
number of characters that spell it, so nothing but blanks is skipped, the rest is always shorter,
and a token starts where the spellings and blanks before it end.

Numbers and names are read as far as they go: a number takes a fraction only if a digit follows the
point, and an exponent only if it has a digit. The end of quoted text is found by
`Template.closing`.
-/

namespace Deployment.Token

/-- One token at the start of a text. -/
structure Lexeme (s : List Char) where
  token : Token
  length : Nat
  pos : 0 < length
  length_le : length ≤ s.length
  weight_le : token.weight ≤ length

/-! ## Numbers and names -/

/-- The number of characters at the start of a text that satisfy a predicate. -/
def runLength (p : Char → Bool) (s : List Char) : Nat :=
  (s.takeWhile p).length

theorem runLength_le (p : Char → Bool) (s : List Char) : runLength p s ≤ s.length :=
  (List.takeWhile_prefix p).length_le

/-- The length of the fraction at the start of a text: a point and at least one digit. -/
def fractionLength : List Char → Nat
  | '.' :: rest =>
    let digits := runLength Char.isDigit rest
    if digits = 0 then 0 else digits + 1
  | _ => 0

theorem fractionLength_le (s : List Char) : fractionLength s ≤ s.length := by
  unfold fractionLength
  split
  · have := runLength_le Char.isDigit ‹List Char›
    simp only [List.length_cons]
    split <;> omega
  · omega

/-- The number of signs at the start of a text, one or none. -/
def signLength (s : List Char) : Nat :=
  if s.head? = some '+' ∨ s.head? = some '-' then 1 else 0

/-- The length of the exponent at the start of a text: `e` or `E`, an optional sign and at least
one digit. -/
def exponentLength : List Char → Nat
  | [] => 0
  | e :: rest =>
    let digits := runLength Char.isDigit (rest.drop (signLength rest))
    if (e = 'e' ∨ e = 'E') ∧ 0 < digits then 1 + signLength rest + digits else 0

theorem exponentLength_le (s : List Char) : exponentLength s ≤ s.length := by
  unfold exponentLength
  split
  · simp
  · rename_i e rest
    have := runLength_le Char.isDigit (rest.drop (signLength rest))
    simp only [List.length_drop, List.length_cons] at *
    split <;> omega

/-- The length of the longest number at the start of a text. -/
def numberLength (s : List Char) : Nat :=
  let whole := runLength Char.isDigit s
  let fraction := whole + fractionLength (s.drop whole)
  fraction + exponentLength (s.drop fraction)

theorem numberLength_le (s : List Char) : numberLength s ≤ s.length := by
  have whole := runLength_le Char.isDigit s
  have fraction := fractionLength_le (s.drop (runLength Char.isDigit s))
  have exponent := exponentLength_le
    (s.drop (runLength Char.isDigit s + fractionLength (s.drop (runLength Char.isDigit s))))
  simp only [List.length_drop] at fraction exponent
  simp only [numberLength]
  omega

/-! ## Text between apostrophes -/

/-- The content of a text between apostrophes, from behind the opening one, and the number of
characters that spell it. A backslash is special before an apostrophe, a backslash, `n` and `t`;
before any other character it stands for itself. -/
def apostrophed : List Char → Option (List Char × Nat)
  | [] => none
  | '\'' :: _ => some ([], 0)
  | ['\\'] => none
  | '\\' :: c :: rest =>
    let decoded :=
      match c with
      | '\'' => ['\'']
      | '\\' => ['\\']
      | 'n' => ['\n']
      | 't' => ['\t']
      | c => ['\\', c]
    (apostrophed rest).map fun (content, n) => (decoded ++ content, n + 2)
  | c :: rest => (apostrophed rest).map fun (content, n) => (c :: content, n + 1)

theorem apostrophed_lt {s content : List Char} {n : Nat} (h : apostrophed s = some (content, n)) :
    n < s.length := by
  fun_induction apostrophed s generalizing content n <;> grind [Option.map_eq_some_iff]

/-! ## Lexemes -/

/-- The symbol at the start of a text and the number of its characters: of two symbols that fit,
the longer. -/
def symbol? : List Char → Option (Symbol × Nat)
  | '.' :: '.' :: '.' :: _ => some (.ellipsis, 3)
  | '=' :: '=' :: _ => some (.equal, 2)
  | '!' :: '=' :: _ => some (.notEqual, 2)
  | '<' :: '=' :: _ => some (.lessEqual, 2)
  | '>' :: '=' :: _ => some (.greaterEqual, 2)
  | '&' :: '&' :: _ => some (.and, 2)
  | '|' :: '|' :: _ => some (.or, 2)
  | '+' :: _ => some (.plus, 1)
  | '-' :: _ => some (.minus, 1)
  | '*' :: _ => some (.star, 1)
  | '/' :: _ => some (.slash, 1)
  | '%' :: _ => some (.percent, 1)
  | '<' :: _ => some (.less, 1)
  | '>' :: _ => some (.greater, 1)
  | '!' :: _ => some (.not, 1)
  | '.' :: _ => some (.dot, 1)
  | ',' :: _ => some (.comma, 1)
  | ':' :: _ => some (.colon, 1)
  | '?' :: _ => some (.question, 1)
  | '=' :: _ => some (.assign, 1)
  | '(' :: _ => some (.openParen, 1)
  | ')' :: _ => some (.closeParen, 1)
  | '[' :: _ => some (.openBracket, 1)
  | ']' :: _ => some (.closeBracket, 1)
  | '{' :: _ => some (.openBrace, 1)
  | '}' :: _ => some (.closeBrace, 1)
  | _ => none

theorem symbol?_length {s : List Char} {symbol : Symbol} {n : Nat}
    (h : symbol? s = some (symbol, n)) : 0 < n ∧ n ≤ s.length := by
  revert h
  fun_cases symbol? s <;> intro h <;> cases h <;> simp

/-- The token at the start of a text that starts with `c`, which is not blank. -/
def lexeme (c : Char) (rest : List Char) : Except ParseCause (Lexeme (c :: rest)) :=
  if c = '"' then
    match h : Template.closing .quoted [] rest with
    | none => .error .unterminatedString
    | some n =>
      have hn := Template.closing_lt_length h
      .ok ⟨.quoted (rest.take n), n + 2, by omega, by grind, by grind [weight]⟩
  else if c = '\'' then
    match h : apostrophed rest with
    | none => .error .unterminatedString
    | some (content, n) =>
      have hn := apostrophed_lt h
      .ok ⟨.text (String.ofList content), n + 2, by omega, by grind, by simp [weight]⟩
  else
    match h : symbol? (c :: rest) with
    | some (s, n) =>
      have hn := symbol?_length h
      .ok ⟨.symbol s, n, hn.1, hn.2, hn.1⟩
    | none =>
      let s := c :: rest
      if c.isDigit then
        let n := max 1 (numberLength s)
        have hn : n ≤ s.length := by
          have := numberLength_le s
          simp only [n, s, List.length_cons] at *
          omega
        .ok ⟨.number (String.ofList (s.take n)), n, by omega, hn, by simp only [weight]; omega⟩
      else if Text.startsName c then
        let n := 1 + runLength Text.continuesName rest
        have hn : n ≤ s.length := by
          have := runLength_le Text.continuesName rest
          simp [n, s]; omega
        .ok ⟨.name (String.ofList (s.take n)), n, by omega, hn, by simp only [weight]; omega⟩
      else .error (.unexpectedCharacter c)

/-- The tokens of a text that starts at byte offset `position`. Together they weigh no more than
the text has characters. -/
def tokenizeFrom (position : Nat) (s : List Char) :
    Except ParseError { tokens : List Spanned // Spanned.totalWeight tokens ≤ s.length } :=
  let start := position + Text.utf8Length (s.takeWhile Text.isBlank)
  have hle : (s.dropWhile Text.isBlank).length ≤ s.length :=
    (List.dropWhile_suffix Text.isBlank).length_le
  match hs : s.dropWhile Text.isBlank with
  | [] => .ok ⟨[⟨.eof, start⟩], Spanned.totalWeight_eof_le start s.length⟩
  | c :: rest =>
    match lexeme c rest with
    | .error cause => .error ⟨cause, start⟩
    | .ok lexeme =>
      have hlexeme := lexeme.length_le
      have hweight := lexeme.weight_le
      have hpos := lexeme.pos
      have hdrop : ((c :: rest).drop lexeme.length).length < s.length := by
        rw [hs] at hle
        simp only [List.length_drop, List.length_cons] at *
        omega
      match tokenizeFrom (start + Text.utf8Length ((c :: rest).take lexeme.length))
          ((c :: rest).drop lexeme.length) with
      | .error e => .error e
      | .ok ⟨tokens, h⟩ =>
        .ok ⟨⟨lexeme.token, start⟩ :: tokens, by
          rw [hs] at hle
          simp only [Spanned.totalWeight_cons, List.length_drop, List.length_cons] at *
          omega⟩
termination_by s.length
decreasing_by exact hdrop

/-- The tokens of a text. The last one is `eof`. -/
def tokenize (s : List Char) :
    Except ParseError { tokens : List Spanned // Spanned.totalWeight tokens ≤ s.length } :=
  tokenizeFrom 0 s

end Deployment.Token
