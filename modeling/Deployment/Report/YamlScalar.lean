import Deployment.Report
import Deployment.Text.Utf8

/-! # Text in YAML

Text is written plainly where no reader can take it for anything else. Text that reads as another
scalar is set in single quotes, text of several lines becomes a block, and what neither can hold is
set in double quotes with escapes.
-/

namespace Deployment.Report

/-! ## Classes of characters -/

/-- A line break. -/
def isBreak (c : Char) : Bool :=
  c == '\n' || c == '\r' || [0x85, 0x2028, 0x2029].contains c.toNat

/-- A blank, a line break or the end of text. -/
def endsWord : Option Char → Bool
  | none => true
  | some c => c == ' ' || c == '\t' || c == '\x00' || isBreak c

/-- A character that may stand for itself. -/
def isPrintable (c : Char) : Bool :=
  c == '\n' || (' ' ≤ c && c ≤ '~') ||
    (0xa0 ≤ c.toNat && !( [0xfeff, 0xfffe, 0xffff].contains c.toNat))

/-- The characters that mean something at the start of a scalar. -/
def isOpening (c : Char) : Bool :=
  ['#', ',', '[', ']', '\x7b', '\x7d', '&', '*', '!', '|', '>', '\x27', '"', '%', '@',
    '\x60'].contains c

/-- Texts that some reader takes for a truth value or for nothing. -/
def reservedWords : List String :=
  ["y", "yes", "n", "no", "on", "off", "true", "false", "null", "nil", "~"]

/-- Whether text might be read as something else than text. -/
def isAmbiguous (s : String) : Bool :=
  match s.toList with
  | [] => true
  | c :: _ =>
    c.isDigit || c == '-' || c == '.' || c == '+' ||
      reservedWords.contains (String.ofList (s.toList.map Char.toLower))

/-! ## What a style can hold -/

/-- Whether a property holds of two neighbouring characters. -/
def hasPair (p : Char → Char → Bool) (s : List Char) : Bool :=
  (s.zip s.tail).any fun (a, b) => p a b

/-- Whether text holds a mark that ends or changes a plain scalar. -/
def hasIndicator (s : List Char) : Bool :=
  let first :=
    match s with
    | [] => false
    | c :: rest =>
      isOpening c || ((c == '?' || c == ':' || c == '-') && endsWord rest.head?)
  first || ['-', '-', '-'].isPrefixOf s || ['.', '.', '.'].isPrefixOf s ||
    s.getLast? == some ':' || hasPair (fun a b => a == ':' && endsWord (some b)) s ||
    hasPair (fun a b => endsWord (some a) && b == '#') s

/-- Whether text can be written plainly. -/
def isPlain (s : List Char) : Bool :=
  s.all isPrintable && !s.any isBreak && s.head? != some ' ' && s.getLast? != some ' ' &&
    !hasIndicator s

/-- Whether text can be set in single quotes. -/
def fitsQuotes (s : List Char) : Bool :=
  s.all isPrintable && !hasPair (fun a b => isBreak a && b == ' ') s &&
    !hasPair (fun a b => a == ' ' && isBreak b) s

/-- Whether text can be a block. -/
def fitsBlock (s : List Char) : Bool :=
  !s.isEmpty && s.all isPrintable && s.getLast? != some ' ' &&
    !hasPair (fun a b => a == ' ' && isBreak b) s

/-- The ways to write text. -/
inductive Style
  | plain
  | single
  | double
  | block
deriving DecidableEq, Repr

/-- The style of text; a key on the line of its value is no block. -/
def styleOf (asKey : Bool) (s : String) : Style :=
  let text := s.toList
  if asKey && text.any isBreak then .double
  else if text.contains '\n' then
    if fitsBlock text && !asKey then .block else .double
  else if !isAmbiguous s && isPlain text then .plain
  else if fitsQuotes text then .single
  else .double

/-! ## Writing -/

/-- Lines with every character at the start of a line behind an indentation. `fresh` tells whether
the text is at the start of a line. -/
def indentLines (indent : Nat) (fresh : Bool) : List Char → List Char
  | [] => []
  | c :: rest =>
    if isBreak c then c :: indentLines indent true rest
    else (if fresh then List.replicate indent ' ' else []) ++ c :: indentLines indent false rest

/-- Hexadecimal digits in capitals, of a given number. -/
def hexDigits (width n : Nat) : List Char :=
  ((List.range width).map fun i => ((n >>> (4 * (width - 1 - i))) % 16).digitChar.toUpper)

/-- How a character is written between double quotes. -/
def doubleChar (c : Char) : List Char :=
  match c with
  | '\x00' => ['\\', '0']
  | '\x07' => ['\\', 'a']
  | '\x08' => ['\\', 'b']
  | '\t' => ['\\', 't']
  | '\n' => ['\\', 'n']
  | '\x0b' => ['\\', 'v']
  | '\x0c' => ['\\', 'f']
  | '\r' => ['\\', 'r']
  | '\x1b' => ['\\', 'e']
  | '"' => ['\\', '"']
  | '\\' => ['\\', '\\']
  | c =>
    if c.toNat = 0x85 then ['\\', 'N']
    else if c.toNat = 0x2028 then ['\\', 'L']
    else if c.toNat = 0x2029 then ['\\', 'P']
    else if isPrintable c then [c]
    else if c.toNat ≤ 0xff then '\\' :: 'x' :: hexDigits 2 c.toNat
    else if c.toNat ≤ 0xffff then '\\' :: 'u' :: hexDigits 4 c.toNat
    else '\\' :: 'U' :: hexDigits 8 c.toNat

/-- What is written behind the sign of a block: a number if the text starts with a blank or line
break, and whether its last line breaks are to be dropped or kept. -/
def blockHints (s : List Char) : List Char :=
  let first := if s.head?.any fun c => c == ' ' || isBreak c then ['2'] else []
  let last :=
    match s.reverse with
    | a :: rest =>
      if !isBreak a then ['-'] else if rest.head?.all isBreak then ['+'] else []
    | [] => ['-']
  first ++ last

/-- Text as a scalar behind an indicator at a depth of indentation. -/
def scalar (indent : Nat) (asKey : Bool) (s : String) : String :=
  let text := s.toList
  match styleOf asKey s with
  | .plain => s
  | .single =>
    let doubled := text.flatMap fun c => if c == '\x27' then [c, c] else [c]
    "\x27" ++ String.ofList (indentLines (indent + 2) false doubled) ++ "\x27"
  | .double => "\"" ++ String.ofList (text.flatMap doubleChar) ++ "\""
  | .block =>
    "|" ++ String.ofList (blockHints text ++ '\n' :: indentLines (indent + 2) true text)

end Deployment.Report
