/-! # Errors of reading expressions

An expression or template that cannot be read is rejected with a cause and the position at which
reading stopped, counted in bytes from the start of the text. Parts of a text are read on their
own; `ParseError.shift` turns a position within a part into one within the whole.
-/

namespace Deployment

/-- Why an expression or a template cannot be read. -/
inductive ParseCause
  | unexpectedCharacter (c : Char)
  | unterminatedString
  | unterminatedInterpolation
  | unterminatedEscape
  | directive
  | incompleteEscape (letter : Char)
  | invalidCodePoint (letter : Char) (digits : String)
  | invalidEscape (c : Char)
  | invalidNumber (spelling : String)
  | expected (what found : String)
  | splat
  | argumentExpansion
  | forExpression
deriving DecidableEq, Repr

/-- The wording of a cause. -/
def ParseCause.message : ParseCause → String
  | .unexpectedCharacter c => s!"unexpected character `{c}`"
  | .unterminatedString => "unterminated string"
  | .unterminatedInterpolation => "unterminated interpolation"
  | .unterminatedEscape => "unterminated escape sequence"
  | .directive => "template directives are not supported"
  | .incompleteEscape letter => "incomplete `\\" ++ letter.toString ++ "` escape"
  | .invalidCodePoint letter digits =>
    "invalid unicode escape `\\" ++ letter.toString ++ digits ++ "`"
  | .invalidEscape c => "invalid escape sequence `\\" ++ c.toString ++ "`"
  | .invalidNumber spelling => s!"invalid number `{spelling}`"
  | .expected what found => s!"expected {what}, found `{found}`"
  | .splat => "splat expressions are not supported"
  | .argumentExpansion => "argument expansions are not supported"
  | .forExpression => "for expressions are not supported"

/-- A cause and its byte position. -/
structure ParseError where
  cause : ParseCause
  position : Nat
deriving DecidableEq, Repr

namespace ParseError

/-- The wording of an error. -/
def message (e : ParseError) : String :=
  s!"{e.cause.message} at position {e.position}"

/-- The error as seen from a text in which the part that was read starts at `offset`. -/
def shift (offset : Nat) (e : ParseError) : ParseError :=
  { e with position := offset + e.position }

end ParseError

end Deployment
