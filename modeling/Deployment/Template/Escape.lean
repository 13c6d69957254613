import Deployment.ParseError

/-! # Escaping in templates

Text becomes template text by doubling the sign of every marker: `${` is written `$${` and `%{` is
written `%%{`. Within quotes, backslashes, quotes and line breaks are also written as escapes.
`unescape` reads one such escape; it knows the ones that `escapeQuoted` writes and in addition code
points, `\u` with four and `\U` with eight hexadecimal digits.
-/

namespace Deployment.Template

/-- Doubles the sign of every marker. -/
def escapeMarkers : List Char → List Char
  | '$' :: '{' :: rest => '$' :: '$' :: '{' :: escapeMarkers rest
  | '%' :: '{' :: rest => '%' :: '%' :: '{' :: escapeMarkers rest
  | c :: rest => c :: escapeMarkers rest
  | [] => []

/-- How one character is written within quotes. -/
def escapeChar : Char → List Char
  | '\\' => ['\\', '\\']
  | '"' => ['\\', '"']
  | '\n' => ['\\', 'n']
  | '\r' => ['\\', 'r']
  | '\t' => ['\\', 't']
  | c => [c]

/-- Text as it is written within quotes, markers apart. -/
def escapeQuoted (text : List Char) : List Char :=
  text.flatMap escapeChar

/-- Text with its markers escaped. -/
def plain (text : String) : String :=
  String.ofList (escapeMarkers text.toList)

/-- Text as it is written within quotes. -/
def quoted (text : String) : String :=
  String.ofList (escapeMarkers (escapeQuoted text.toList))

/-! ## Reading escapes -/

/-- The characters at the start of a text that take exactly the given number of bytes in UTF-8, if
some do. -/
def takeBytes? : Nat → List Char → Option (List Char)
  | 0, _ => some []
  | _ + 1, [] => none
  | n + 1, c :: rest =>
    if c.utf8Size ≤ n + 1 then (takeBytes? (n + 1 - c.utf8Size) rest).map (c :: ·) else none
termination_by _ s => s.length

/-- The value of a hexadecimal digit. -/
def hexDigit? (c : Char) : Option Nat :=
  if c.isDigit then some (c.toNat - '0'.toNat)
  else if 'a' ≤ c ∧ c ≤ 'f' then some (c.toNat - 'a'.toNat + 10)
  else if 'A' ≤ c ∧ c ≤ 'F' then some (c.toNat - 'A'.toNat + 10)
  else none

/-- The number that hexadecimal digits denote. A plus sign may precede them. -/
def hexNumber? (digits : List Char) : Option Nat :=
  let digits :=
    match digits with
    | '+' :: digits => digits
    | digits => digits
  digits.foldlM (fun n c => (hexDigit? c).map (16 * n + ·)) 0

/-- The character with a given code point, if the code point is a scalar value. -/
def scalar? (code : Nat) : Option Char :=
  if code.isValidChar then some (Char.ofNat code) else none

/-- Reads the digits of a code point, `width` bytes of them. -/
def codePoint (letter : Char) (width : Nat) (rest : List Char) :
    Except ParseCause (Char × Nat) :=
  match takeBytes? width rest with
  | none => .error (.incompleteEscape letter)
  | some digits =>
    match (hexNumber? digits).bind scalar? with
    | none => .error (.invalidCodePoint letter (String.ofList digits))
    | some c => .ok (c, digits.length + 1)

/-- Reads an escape from behind its backslash: the character it stands for and the number of
characters that spell it. -/
def unescape : List Char → Except ParseCause (Char × Nat)
  | [] => .error .unterminatedEscape
  | 'n' :: _ => .ok ('\n', 1)
  | 'r' :: _ => .ok ('\r', 1)
  | 't' :: _ => .ok ('\t', 1)
  | '"' :: _ => .ok ('"', 1)
  | '\\' :: _ => .ok ('\\', 1)
  | 'u' :: rest => codePoint 'u' 4 rest
  | 'U' :: rest => codePoint 'U' 8 rest
  | c :: _ => .error (.invalidEscape c)

end Deployment.Template
