import Deployment.Expr.Printer
import Deployment.Token

/-! # The tokens of written expressions

What `Expr.render` writes is cut into tokens again when it is read. `Expr.tokens` are these tokens,
in terms of the expression. They stand between the text and the grammar: that the written text is
cut into them is a statement about characters only, and that they are read as an expression is a
statement about tokens only.
-/

namespace Deployment

namespace Token

/-- Sequences of tokens with commas between them. -/
def separated : List (List Token) → List Token
  | [] => []
  | [ts] => ts
  | ts :: rest => ts ++ .symbol .comma :: separated rest

/-- Tokens between an opening and a closing symbol. -/
def enclosed (opening closing : Symbol) (ts : List Token) : List Token :=
  .symbol opening :: (ts ++ [.symbol closing])

/-- Tokens in parentheses if a condition holds. -/
def groupedIf (condition : Bool) (ts : List Token) : List Token :=
  if condition then enclosed .openParen .closeParen ts else ts

end Token

open Token (enclosed separated groupedIf)

/-- The symbol of a prefixed operator. -/
def UnaryOp.token : UnaryOp → Symbol
  | .not => .not
  | .neg => .minus

/-- The symbol of an operator. -/
def BinaryOp.token : BinaryOp → Symbol
  | .or => .or
  | .and => .and
  | .equal => .equal
  | .notEqual => .notEqual
  | .order .less => .less
  | .order .lessEqual => .lessEqual
  | .order .greater => .greater
  | .order .greaterEqual => .greaterEqual
  | .arithmetic .add => .plus
  | .arithmetic .sub => .minus
  | .arithmetic .mul => .star
  | .arithmetic .div => .slash
  | .arithmetic .mod => .percent

/-- A number is read without its sign, so a minus is a token of its own. -/
def Number.tokens (n : Number) : List Token :=
  match (n.write .expression).toList with
  | '-' :: digits => [.symbol .minus, .number (String.ofList digits)]
  | digits => [.number (String.ofList digits)]

/-- Text within quotes is one token. -/
def Token.ofText (s : String) : Token :=
  .quoted (Template.quoted s).toList

namespace Value

mutual
/-- The tokens of a value. -/
def tokens : Value → List Token
  | .null => [.name "null"]
  | .bool b => [.name (toString b)]
  | .number n => n.tokens
  | .text s => [.ofText s]
  | .list items => enclosed .openBracket .closeBracket (separated (tokensOfItems items))
  | .map entries => enclosed .openBrace .closeBrace (separated (tokensOfEntries entries))

/-- The tokens of the items of a list, one by one. -/
def tokensOfItems : List Value → List (List Token)
  | [] => []
  | v :: rest => tokens v :: tokensOfItems rest

/-- The tokens of the entries of a map, one by one. -/
def tokensOfEntries : List (String × Value) → List (List Token)
  | [] => []
  | (key, v) :: rest => (.ofText key :: .symbol .assign :: tokens v) :: tokensOfEntries rest
end

/-- The tokens of the items, stated with the library function. -/
theorem tokensOfItems_eq_map (items : List Value) : tokensOfItems items = items.map tokens := by
  induction items with
  | nil => rfl
  | cons v rest ih => rw [tokensOfItems, ih, List.map_cons]

/-- The tokens of the entries of a map value: the key in quotes, and the value. -/
theorem tokensOfEntries_eq_map (entries : List (String × Value)) :
    tokensOfEntries entries =
      entries.map fun entry => .ofText entry.1 :: .symbol .assign :: tokens entry.2 := by
  induction entries with
  | nil => rfl
  | cons entry rest ih => rw [tokensOfEntries, ih, List.map_cons]

end Value

namespace Expr

mutual
/-- The tokens of an expression. -/
def tokens : Expr → List Token
  | .literal v => v.tokens
  | .template parts => [.quoted (renderParts true parts).toList]
  | .reference r => .name r.root :: r.path.flatMap fun name => [.symbol .dot, .name name]
  | .list items => enclosed .openBracket .closeBracket (separated (tokensOfItems items))
  | .map entries => enclosed .openBrace .closeBrace (separated (tokensOfEntries entries))
  | .attribute object name =>
    groupedIf object.needsParens (tokens object) ++ [.symbol .dot, .name name]
  | .index object key =>
    groupedIf object.needsParens (tokens object) ++ enclosed .openBracket .closeBracket (tokens key)
  | .unary op operand => .symbol op.token :: groupedIf operand.needsParens (tokens operand)
  | .binary op left right =>
    groupedIf left.needsParens (tokens left) ++
      .symbol op.token :: groupedIf right.needsParens (tokens right)
  | .conditional condition yes no =>
    groupedIf condition.needsParens (tokens condition) ++
      .symbol .question :: (groupedIf yes.needsParens (tokens yes) ++
        .symbol .colon :: groupedIf no.needsParens (tokens no))
  | .call name args =>
    .name name :: enclosed .openParen .closeParen (separated (tokensOfItems args))

/-- The tokens of several expressions, one by one. -/
def tokensOfItems : List Expr → List (List Token)
  | [] => []
  | e :: rest => tokens e :: tokensOfItems rest

/-- The tokens of the entries of a map constructor, one by one. -/
def tokensOfEntries : List (Expr × Expr) → List (List Token)
  | [] => []
  | (key, e) :: rest =>
    (groupedIf (!key.isBareKey) (tokens key) ++ .symbol .assign :: tokens e) :: tokensOfEntries rest
end

/-- The tokens of an operand, which is in parentheses where it has to be. -/
def operandTokens (e : Expr) : List Token :=
  groupedIf e.needsParens e.tokens

/-- The tokens of an entry of a map constructor. -/
def entryTokens (entry : Expr × Expr) : List Token :=
  groupedIf (!entry.1.isBareKey) entry.1.tokens ++ .symbol .assign :: entry.2.tokens

/-- The tokens of several expressions, stated with the library function. -/
theorem tokensOfItems_eq_map (items : List Expr) : tokensOfItems items = items.map tokens := by
  induction items with
  | nil => rfl
  | cons e rest ih => rw [tokensOfItems, ih, List.map_cons]

/-- The tokens of the entries of a map constructor: the key, in parentheses unless it may stand on
its own, and the expression. -/
theorem tokensOfEntries_eq_map (entries : List (Expr × Expr)) :
    tokensOfEntries entries = entries.map entryTokens := by
  induction entries with
  | nil => rfl
  | cons entry rest ih => rw [tokensOfEntries, ih, List.map_cons, entryTokens]

end Expr

end Deployment
