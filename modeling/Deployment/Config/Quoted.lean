/-! # Quoted text in configuration source

Within quotes some characters are written as escapes, and a sign with a brace behind it, the marker
of an interpolation or directive, is written with its sign doubled. What is an expression and what
stays template source differ in the characters that have no escape of their own: `QuoteStyle` holds
that difference.
-/

namespace Deployment.Config

/-! ## Markers -/

/-- The first character of a marker. -/
def isSign (c : Char) : Bool :=
  c == '$' || c == '%'

/-- Doubles the signs of the markers. The character behind a sign is passed together with it, so
that of two signs before a brace neither is doubled. -/
def doubleSigns : List Char → List Char
  | c :: d :: rest =>
    if isSign c then
      if d = '{' then c :: c :: d :: doubleSigns rest else c :: d :: doubleSigns rest
    else c :: doubleSigns (d :: rest)
  | s => s

/-- Plain text as source of a template: from its first marker on, signs are doubled. -/
def escapeText : List Char → List Char
  | c :: '{' :: rest =>
    if isSign c then doubleSigns (c :: '{' :: rest) else c :: escapeText ('{' :: rest)
  | c :: rest => c :: escapeText rest
  | [] => []

/-- Plain text as source of a template. -/
def literalSource (text : String) : String :=
  String.ofList (escapeText text.toList)

/-! ## Escapes -/

/-- How control characters that have no escape of their own are written: which of them are escaped
by their code point, and with which digits. -/
structure QuoteStyle where
  escapes : Char → Bool
  digit : Char → Char

/-- Text in an expression. -/
def QuoteStyle.expression : QuoteStyle := ⟨(· < ' '), id⟩

/-- Text in the source of a template. -/
def QuoteStyle.template : QuoteStyle := ⟨fun c => c < ' ' || c == '\x7f', Char.toUpper⟩

/-- A number in hexadecimal, with at least four digits. -/
def fourDigits (n : Nat) : List Char :=
  (Nat.toDigits 16 n).leftpad 4 '0'

/-- One character within quotes. -/
def QuoteStyle.escape (style : QuoteStyle) : Char → List Char
  | '\x08' => ['\\', 'b']
  | '\t' => ['\\', 't']
  | '\n' => ['\\', 'n']
  | '\x0c' => ['\\', 'f']
  | '\r' => ['\\', 'r']
  | '"' => ['\\', '"']
  | '\\' => ['\\', '\\']
  | c => if style.escapes c then '\\' :: 'u' :: (fourDigits c.toNat).map style.digit else [c]

/-- Plain text as it is written within quotes. -/
def QuoteStyle.write (style : QuoteStyle) (text : String) : String :=
  String.ofList ((escapeText text.toList).flatMap style.escape)

end Deployment.Config
