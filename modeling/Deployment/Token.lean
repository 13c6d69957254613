/-! # Tokens of expressions

The smallest meaningful pieces of an expression. Quoted text is kept as written between its quotes,
because it may hold interpolations that are read later; text between apostrophes is already
decoded.
-/

namespace Deployment

/-- Punctuation and operators. -/
inductive Symbol
  | plus
  | minus
  | star
  | slash
  | percent
  | equal
  | notEqual
  | less
  | lessEqual
  | greater
  | greaterEqual
  | and
  | or
  | not
  | dot
  | comma
  | colon
  | question
  | assign
  | ellipsis
  | openParen
  | closeParen
  | openBracket
  | closeBracket
  | openBrace
  | closeBrace
deriving DecidableEq, Repr

/-- How a symbol is written. -/
def Symbol.spelling : Symbol → String
  | .plus => "+"
  | .minus => "-"
  | .star => "*"
  | .slash => "/"
  | .percent => "%"
  | .equal => "=="
  | .notEqual => "!="
  | .less => "<"
  | .lessEqual => "<="
  | .greater => ">"
  | .greaterEqual => ">="
  | .and => "&&"
  | .or => "||"
  | .not => "!"
  | .dot => "."
  | .comma => ","
  | .colon => ":"
  | .question => "?"
  | .assign => "="
  | .ellipsis => "..."
  | .openParen => "("
  | .closeParen => ")"
  | .openBracket => "["
  | .closeBracket => "]"
  | .openBrace => "\x7b"
  | .closeBrace => "\x7d"

/-- A piece of an expression. -/
inductive Token
  | number (spelling : String)
  | quoted (content : List Char)
  | text (content : String)
  | name (spelling : String)
  | symbol (s : Symbol)
  | eof
deriving DecidableEq, Repr

namespace Token

/-- How a message shows a token. -/
def display : Token → String
  | .number spelling => spelling
  | .quoted content => "\"" ++ String.ofList content ++ "\""
  | .text content => "'" ++ content ++ "'"
  | .name spelling => spelling
  | .symbol s => s.spelling
  | .eof => "end of expression"

/-- How many characters a token takes at least. Quoted text counts in full, so that what is read
from its content is smaller than the token itself. -/
def weight : Token → Nat
  | .quoted content => content.length + 2
  | .eof => 0
  | _ => 1

end Token

/-- A token and the byte offset at which it starts. -/
structure Spanned where
  token : Token
  position : Nat
deriving DecidableEq, Repr

/-- The weight of a sequence of tokens. -/
def Spanned.totalWeight : List Spanned → Nat
  | [] => 0
  | t :: rest => t.token.weight + totalWeight rest

@[simp] theorem Spanned.totalWeight_nil : totalWeight [] = 0 := rfl

@[simp] theorem Spanned.totalWeight_cons (t : Spanned) (rest : List Spanned) :
    totalWeight (t :: rest) = t.token.weight + totalWeight rest := rfl

theorem Spanned.totalWeight_eof_le (position n : Nat) : totalWeight [⟨.eof, position⟩] ≤ n :=
  Nat.zero_le n

end Deployment
