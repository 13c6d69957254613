import Deployment.Report

/-! # Reports in JSON

JSON is written on one line or spread over lines. A decimal that is no number is null.
-/

namespace Deployment.Report

/-- Four hexadecimal digits. -/
def fourDigits (n : Nat) : List Char :=
  [n / 4096 % 16, n / 256 % 16, n / 16 % 16, n % 16].map Nat.digitChar

/-- How a character is written in a JSON string. -/
def jsonChar : Char → List Char
  | '"' => ['\\', '"']
  | '\\' => ['\\', '\\']
  | '\x08' => ['\\', 'b']
  | '\t' => ['\\', 't']
  | '\n' => ['\\', 'n']
  | '\x0c' => ['\\', 'f']
  | '\r' => ['\\', 'r']
  | c => if c.toNat < 0x20 then '\\' :: 'u' :: fourDigits c.toNat else [c]

/-- A JSON string. -/
def jsonString (s : String) : String :=
  "\"" ++ String.ofList (s.toList.flatMap jsonChar) ++ "\""

/-- A decimal in JSON. -/
def jsonDecimal (x : Float) : String :=
  if x.isFinite then Decimal.Layout.json.write x else "null"

/-- How JSON is spaced: what follows an opening bracket and each comma at a depth, what stands
before a closing bracket, and what follows a colon. -/
structure JsonLayout where
  first : Nat → String
  next : Nat → String
  last : Nat → String
  colon : String

/-- The start of a line at a depth. -/
def jsonLine (depth : Nat) : String :=
  "\n" ++ String.ofList (List.replicate (2 * depth) ' ')

/-- All on one line, without blanks. -/
def JsonLayout.compact : JsonLayout where
  first _ := ""
  next _ := ","
  last _ := ""
  colon := ":"

/-- Every item on a line of its own. -/
def JsonLayout.spread : JsonLayout where
  first depth := jsonLine (depth + 1)
  next depth := "," ++ jsonLine (depth + 1)
  last depth := jsonLine depth
  colon := ": "

mutual
/-- A report in JSON at a depth. -/
def writeJson (layout : JsonLayout) (depth : Nat) : Report → String
  | .null => "null"
  | .bool b => toString b
  | .integer n => toString n
  | .decimal x => jsonDecimal x
  | .text s => jsonString s
  | .list [] => "[]"
  | .list (item :: items) =>
    "[" ++ layout.first depth ++ writeJson layout (depth + 1) item ++
      writeJsonItems layout depth items ++ layout.last depth ++ "]"
  | .map [] => "\x7b\x7d"
  | .map ((key, r) :: entries) =>
    "\x7b" ++ layout.first depth ++ jsonString key ++ layout.colon ++
      writeJson layout (depth + 1) r ++ writeJsonEntries layout depth entries ++
      layout.last depth ++ "\x7d"

/-- The items of a list behind the first. -/
def writeJsonItems (layout : JsonLayout) (depth : Nat) : List Report → String
  | [] => ""
  | r :: rest =>
    layout.next depth ++ writeJson layout (depth + 1) r ++ writeJsonItems layout depth rest

/-- The entries of a map behind the first. -/
def writeJsonEntries (layout : JsonLayout) (depth : Nat) : List (String × Report) → String
  | [] => ""
  | (key, r) :: rest =>
    layout.next depth ++ jsonString key ++ layout.colon ++ writeJson layout (depth + 1) r ++
      writeJsonEntries layout depth rest
end

/-- A report in JSON. -/
def toJson (layout : JsonLayout) (r : Report) : String :=
  writeJson layout 0 r

end Deployment.Report
