import Deployment.Expr
import Deployment.Template.Escape
import Deployment.Token.Lexer

/-! # Reading expressions and templates

Expressions are read by recursive descent over tokens, one function per level of binding, from the
conditional down to accesses and primaries. Quoted text is read as a template, whose interpolations
are cut out by `Template.closing` and read as expressions again.

Reading a template and reading an expression call each other, so everything is one recursion. It
ends because of weights: every step consumes tokens, the tokens of a text weigh no more than it has
characters, and quoted text weighs less than its token.
-/

namespace Deployment.Expr

/-- Something that was read from tokens, with the tokens behind it. They weigh less than a given
bound. -/
structure Parsed (α : Type) (bound : Nat) where
  value : α
  rest : List Spanned
  lt : Spanned.totalWeight rest < bound

/-- Widens the bound. -/
def Parsed.widen {α : Type} {a b : Nat} (p : Parsed α a) (h : a ≤ b) : Parsed α b :=
  ⟨p.value, p.rest, Nat.lt_of_lt_of_le p.lt h⟩

/-! ## Looking at tokens -/

/-- The next token. -/
def peek : List Spanned → Token
  | [] => .eof
  | t :: _ => t.token

/-- The position of the next token. -/
def position : List Spanned → Nat
  | [] => 0
  | t :: _ => t.position

/-- The error that something else was expected here. -/
def unexpected (what : String) (tokens : List Spanned) : ParseError :=
  ⟨.expected what (peek tokens).display, position tokens⟩

/-- The tokens behind a given symbol, if it comes next. -/
def eat? (s : Symbol) : (tokens : List Spanned) →
    Option { rest : List Spanned // Spanned.totalWeight rest < Spanned.totalWeight tokens }
  | ⟨.symbol t, _⟩ :: rest => if s = t then some ⟨rest, by simp [Token.weight]⟩ else none
  | _ => none

/-- The tokens behind a given symbol, which has to come next. -/
def expect (s : Symbol) (tokens : List Spanned) :
    Except ParseError { rest : List Spanned //
      Spanned.totalWeight rest < Spanned.totalWeight tokens } :=
  match eat? s tokens with
  | some rest => .ok rest
  | none => .error (unexpected s!"`{s.spelling}`" tokens)

/-- The binary operator that a symbol stands for. -/
def operatorOf? : Symbol → Option BinaryOp
  | .or => some .or
  | .and => some .and
  | .equal => some .equal
  | .notEqual => some .notEqual
  | .less => some (.order .less)
  | .lessEqual => some (.order .lessEqual)
  | .greater => some (.order .greater)
  | .greaterEqual => some (.order .greaterEqual)
  | .plus => some (.arithmetic .add)
  | .minus => some (.arithmetic .sub)
  | .star => some (.arithmetic .mul)
  | .slash => some (.arithmetic .div)
  | .percent => some (.arithmetic .mod)
  | _ => none

/-- The binary operator of a given level that comes next. -/
def operatorAt? (level : Nat) : (tokens : List Spanned) →
    Option (Parsed BinaryOp (Spanned.totalWeight tokens))
  | ⟨.symbol s, _⟩ :: rest =>
    match operatorOf? s with
    | some op => if op.level = level then some ⟨op, rest, by simp [Token.weight]⟩ else none
    | none => none
  | _ => none

/-- The attribute names of a reference: as many as follow, each behind a dot. -/
def parsePath : (tokens : List Spanned) →
    Parsed (List String) (Spanned.totalWeight tokens + 1)
  | ⟨.symbol .dot, _⟩ :: ⟨.name n, _⟩ :: rest =>
    let path := parsePath rest
    ⟨n :: path.value, path.rest, by have := path.lt; simp [Token.weight]; omega⟩
  | tokens => ⟨[], tokens, by omega⟩

/-- A number literal; a number too large for a double is an error at the next token. -/
def parseNumber (spelling : String) (rest : List Spanned) : Except ParseError Value :=
  match Number.parse? spelling with
  | some n => .ok (.number n)
  | none => .error ⟨.invalidNumber spelling, position rest⟩

/-- Whether the keyword of a `for` expression comes next. -/
def startsFor (tokens : List Spanned) : Bool :=
  peek tokens == .name "for"

/-- The key that comes next and is a bare name, with the tokens behind it: a name is a key if `=` or
`:` follows. -/
def bareKey? : (tokens : List Spanned) → Option (Parsed Expr (Spanned.totalWeight tokens))
  | ⟨.name n, _⟩ :: next :: rest =>
    if next.token = .symbol .assign ∨ next.token = .symbol .colon then
      some ⟨.literal (.text n), next :: rest, by simp [Token.weight]⟩
    else none
  | _ => none

/-- Plain text as the parts of a template: none if it is empty. -/
def textPart (s : String) : Template :=
  if s.isEmpty then [] else [.text s]

/-- Quoted text as an expression: a literal unless something is interpolated. -/
def ofTemplate (parts : Template) : Expr :=
  match parts.literal? with
  | some s => .literal (.text s)
  | none => .template parts

/-! ## The grammar -/

mutual
/-- Reads template text. `literal` is the plain text read since the last interpolation, and
`position` the byte offset of what is left. -/
def parseTemplate (inQuotes : Bool) (position : Nat) (literal : String) (s : List Char) :
    Except ParseError Template :=
  match s with
  | [] => .ok (textPart literal)
  | '$' :: '$' :: '{' :: rest => parseTemplate inQuotes (position + 3) (literal ++ "$\x7b") rest
  | '%' :: '%' :: '{' :: rest => parseTemplate inQuotes (position + 3) (literal ++ "%\x7b") rest
  | '$' :: '{' :: rest =>
    match h : Template.closing .braces [] rest with
    | none => .error ⟨.unterminatedInterpolation, position⟩
    | some n => do
      -- The expression is `n` characters long and stands behind the two of the marker.
      have _hn : n < rest.length := Template.closing_lt_length h
      let e ← (parseText (rest.take n)).mapError (·.shift (position + 2))
      let next := position + 2 + Text.utf8Length (rest.take n) + 1
      let parts ← parseTemplate inQuotes next "" (rest.drop (n + 1))
      .ok (textPart literal ++ .interpolation e :: parts)
  | '%' :: '{' :: _ => .error ⟨.directive, position⟩
  | c :: rest =>
    if inQuotes ∧ c = '\\' then
      match Template.unescape rest with
      | .error cause => .error ⟨cause, position⟩
      | .ok (decoded, n) =>
        parseTemplate inQuotes (position + 1 + Text.utf8Length (rest.take n))
          (literal.push decoded) (rest.drop n)
    else parseTemplate inQuotes (position + c.utf8Size) (literal.push c) rest
termination_by (s.length, 0)
decreasing_by
  all_goals
    simp only [Prod.lex_def, List.length_cons, List.length_take, List.length_drop]
    omega

/-- Reads a whole text as one expression. -/
def parseText (text : List Char) : Except ParseError Expr := do
  let ⟨tokens, _hw⟩ ← Token.tokenize text
  let e ← parseConditional tokens
  if peek e.rest = .eof then .ok e.value else .error (unexpected "end of expression" e.rest)
termination_by (text.length, 12)
decreasing_by all_goals (simp [Prod.lex_def] at *; omega)

/-- Reads `condition ? yes : no`, or less. -/
def parseConditional (tokens : List Spanned) :
    Except ParseError (Parsed Expr (Spanned.totalWeight tokens)) := do
  let ⟨condition, rest, h⟩ ← parseBinary 0 tokens
  match eat? .question rest with
  | none => .ok ⟨condition, rest, h⟩
  | some ⟨rest, h₁⟩ =>
    let ⟨yes, rest, h₂⟩ ← parseConditional rest
    let ⟨rest, h₃⟩ ← expect .colon rest
    let ⟨no, rest, h₄⟩ ← parseConditional rest
    .ok ⟨.conditional condition yes no, rest, by omega⟩
termination_by (Spanned.totalWeight tokens, 10)
decreasing_by all_goals simp [Prod.lex_def] at * <;> omega

/-- Reads operators of a level and of all higher ones. -/
def parseBinary (level : Nat) (tokens : List Spanned) :
    Except ParseError (Parsed Expr (Spanned.totalWeight tokens)) := do
  if level < 6 then
    let ⟨left, rest, h⟩ ← parseBinary (level + 1) tokens
    let e ← parseOperators level left rest
    .ok (e.widen h)
  else parseUnary tokens
termination_by (Spanned.totalWeight tokens, 3 + (6 - level))
decreasing_by all_goals (simp [Prod.lex_def] at *; omega)

/-- Reads further operators of a level, which associate to the left, behind their left operand. -/
def parseOperators (level : Nat) (left : Expr) (tokens : List Spanned) :
    Except ParseError (Parsed Expr (Spanned.totalWeight tokens + 1)) := do
  match operatorAt? level tokens with
  | none => .ok ⟨left, tokens, by omega⟩
  | some ⟨op, rest, h⟩ =>
    let ⟨right, rest, h₁⟩ ← parseBinary (level + 1) rest
    let e ← parseOperators level (.binary op left right) rest
    .ok (e.widen (by omega))
termination_by (Spanned.totalWeight tokens, 0)
decreasing_by all_goals (simp [Prod.lex_def] at *; omega)

/-- Reads prefixed operators and their operand. -/
def parseUnary (tokens : List Spanned) :
    Except ParseError (Parsed Expr (Spanned.totalWeight tokens)) := do
  match eat? .not tokens, eat? .minus tokens with
  | some ⟨rest, h⟩, _ =>
    let ⟨operand, rest, h₁⟩ ← parseUnary rest
    .ok ⟨.unary .not operand, rest, by omega⟩
  | none, some ⟨rest, h⟩ =>
    let ⟨operand, rest, h₁⟩ ← parseUnary rest
    .ok ⟨.unary .neg operand, rest, by omega⟩
  | none, none =>
    let ⟨object, rest, h⟩ ← parsePrimary tokens
    let e ← parseAccesses object rest
    .ok (e.widen h)
termination_by (Spanned.totalWeight tokens, 2)
decreasing_by all_goals simp [Prod.lex_def] at * <;> omega

/-- Reads the accesses behind an expression: `.name`, `.0` and `[index]`. -/
def parseAccesses (object : Expr) (tokens : List Spanned) :
    Except ParseError (Parsed Expr (Spanned.totalWeight tokens + 1)) :=
  match tokens with
  | ⟨.symbol .dot, _⟩ :: ⟨.name name, _⟩ :: rest => do
    let e ← parseAccesses (.attribute object name) rest
    .ok (e.widen (by simp [Token.weight]; omega))
  -- The older spelling of an index: `list.0` for `list[0]`.
  | ⟨.symbol .dot, _⟩ :: ⟨.number spelling, _⟩ :: rest => do
    let n ← parseNumber spelling rest
    let e ← parseAccesses (.index object (.literal n)) rest
    .ok (e.widen (by simp [Token.weight]; omega))
  | ⟨.symbol .dot, _⟩ :: ⟨.symbol .star, _⟩ :: rest => .error ⟨.splat, position rest⟩
  | ⟨.symbol .dot, _⟩ :: rest => .error (unexpected "attribute name" rest)
  | ⟨.symbol .openBracket, _⟩ :: rest =>
    if peek rest = .symbol .star then .error ⟨.splat, position rest⟩
    else do
      let ⟨key, rest, h₁⟩ ← parseConditional rest
      let ⟨rest, h₂⟩ ← expect .closeBracket rest
      let e ← parseAccesses (.index object key) rest
      .ok (e.widen (by simp [Token.weight]; omega))
  | tokens => .ok ⟨object, tokens, by omega⟩
termination_by (Spanned.totalWeight tokens, 0)
decreasing_by all_goals simp [Token.weight, Prod.lex_def] at * <;> omega

/-- Reads a literal, a reference, a call, a constructor or an expression in parentheses. -/
def parsePrimary (tokens : List Spanned) :
    Except ParseError (Parsed Expr (Spanned.totalWeight tokens)) :=
  match tokens with
  | ⟨.number spelling, _⟩ :: rest => do
    let n ← parseNumber spelling rest
    .ok ⟨.literal n, rest, by simp [Token.weight]⟩
  | ⟨.text s, _⟩ :: rest => .ok ⟨.literal (.text s), rest, by simp [Token.weight]⟩
  | ⟨.quoted content, start⟩ :: rest => do
    -- Positions within the content count from behind the opening quote.
    let parts ← (parseTemplate true 0 "" content).mapError (·.shift (start + 1))
    .ok ⟨ofTemplate parts, rest, by simp [Token.weight]⟩
  | ⟨.name "true", _⟩ :: rest => .ok ⟨.literal (.bool true), rest, by simp [Token.weight]⟩
  | ⟨.name "false", _⟩ :: rest => .ok ⟨.literal (.bool false), rest, by simp [Token.weight]⟩
  | ⟨.name "null", _⟩ :: rest => .ok ⟨.literal .null, rest, by simp [Token.weight]⟩
  | ⟨.name name, _⟩ :: rest =>
    match eat? .openParen rest with
    | some ⟨rest, h⟩ => do
      let args ← parseItems .closeParen rest
      .ok ⟨.call name args.value, args.rest, by have := args.lt; simp [Token.weight]; omega⟩
    | none =>
      let path := parsePath rest
      .ok ⟨.reference ⟨name, path.value⟩, path.rest, by
        have := path.lt; simp [Token.weight]; omega⟩
  | ⟨.symbol .openParen, _⟩ :: rest => do
    let ⟨e, rest, h₁⟩ ← parseConditional rest
    let ⟨rest, h₂⟩ ← expect .closeParen rest
    .ok ⟨e, rest, by simp [Token.weight]; omega⟩
  | ⟨.symbol .openBracket, _⟩ :: rest =>
    if startsFor rest then .error ⟨.forExpression, position rest⟩
    else do
      let items ← parseItems .closeBracket rest
      .ok ⟨.list items.value, items.rest, by have := items.lt; simp [Token.weight]; omega⟩
  | ⟨.symbol .openBrace, _⟩ :: rest =>
    if startsFor rest then .error ⟨.forExpression, position rest⟩
    else do
      let entries ← parseEntries rest
      .ok ⟨.map entries.value, entries.rest, by have := entries.lt; simp [Token.weight]; omega⟩
  | tokens => .error (unexpected "expression" tokens)
termination_by (Spanned.totalWeight tokens, 0)
decreasing_by all_goals simp [Token.weight, Prod.lex_def] at * <;> omega

/-- Reads expressions separated by commas up to and including the closing symbol. A comma may stand
before it. -/
def parseItems (close : Symbol) (tokens : List Spanned) :
    Except ParseError (Parsed (List Expr) (Spanned.totalWeight tokens)) := do
  match eat? close tokens with
  | some ⟨rest, h⟩ => .ok ⟨[], rest, h⟩
  | none =>
    let ⟨e, rest, h⟩ ← parseConditional tokens
    if close = .closeParen ∧ peek rest = .symbol .ellipsis then
      .error ⟨.argumentExpansion, position rest⟩
    match eat? .comma rest with
    | some ⟨rest, h₁⟩ =>
      let ⟨items, rest, h₂⟩ ← parseItems close rest
      .ok ⟨e :: items, rest, by omega⟩
    | none =>
      let ⟨rest, h₁⟩ ← expect close rest
      .ok ⟨[e], rest, by omega⟩
termination_by (Spanned.totalWeight tokens, 11)
decreasing_by all_goals simp [Prod.lex_def] at * <;> omega

/-- Reads the entries of a map constructor up to and including the closing brace. Commas between
entries may be left out. -/
def parseEntries (tokens : List Spanned) :
    Except ParseError (Parsed (List (Expr × Expr)) (Spanned.totalWeight tokens)) := do
  match eat? .closeBrace tokens with
  | some ⟨rest, h⟩ => .ok ⟨[], rest, h⟩
  | none =>
    let ⟨key, rest, h⟩ ←
      match bareKey? tokens with
      | some key => .ok key
      | none => parseConditional tokens
    let ⟨rest, h₁⟩ ←
      match eat? .assign rest with
      | some rest => .ok rest
      | none => expect .colon rest
    let ⟨e, rest, h₂⟩ ← parseConditional rest
    let ⟨rest, h₃⟩ : { r : List Spanned // Spanned.totalWeight r ≤ Spanned.totalWeight rest } :=
      match eat? .comma rest with
      | some ⟨rest, h⟩ => ⟨rest, Nat.le_of_lt h⟩
      | none => ⟨rest, Nat.le_refl _⟩
    let ⟨entries, rest, h₄⟩ ← parseEntries rest
    .ok ⟨(key, e) :: entries, rest, by omega⟩
termination_by (Spanned.totalWeight tokens, 11)
decreasing_by all_goals simp [Prod.lex_def] at * <;> omega
end

/-- Reads a text as one expression. -/
def parse (text : String) : Except ParseError Expr :=
  parseText text.toList

end Deployment.Expr

namespace Deployment

/-- Reads a text as a template. Within quotes, backslash escapes are processed. -/
def Template.parse (text : String) (inQuotes : Bool) : Except ParseError Template :=
  Expr.parseTemplate inQuotes 0 "" text.toList

end Deployment
