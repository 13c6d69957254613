import Deployment.Report.YamlScalar

/-! # Reports in YAML

Lists and maps are written as blocks: the items of a list behind dashes, the entries of a map on
lines of their own. The items of a list under a key are not indented any further. A long key, or one
of several lines, stands behind a question mark.
-/

namespace Deployment.Report

/-- Blanks. -/
def blanks (count : Nat) : String :=
  String.ofList (List.replicate count ' ')

/-- Puts text on the next line, unless the text before already ends its line. -/
def onNextLine (before after : String) : String :=
  if isBreak before.back then before ++ after else before ++ "\n" ++ after

/-- Whether a key stands on the line of its value. -/
def isSimpleKey (key : String) : Bool :=
  !key.toList.any isBreak && key.utf8ByteSize ≤ 128

/-- A decimal in YAML. -/
def yamlDecimal (x : Float) : String :=
  if x.isNaN then ".nan"
  else if x.isFinite then Decimal.Layout.source.write x
  else if Decimal.isNegative x then "-.inf"
  else ".inf"

/-- Where a report stands: behind a dash or question mark, where lists and maps begin on the same
line and are indented, or behind the colon of a key, where they begin on the next line. -/
inductive Position
  | inline
  | behindColon
deriving DecidableEq, Repr

/-- What stands before a scalar or an empty list or map. -/
def Position.gap : Position → String
  | .inline => ""
  | .behindColon => " "

/-- What stands before the first item of a list or entry of a map at an indentation. -/
def Position.lead (indent : Nat) : Position → String
  | .inline => ""
  | .behindColon => "\n" ++ blanks indent

/-- The indentation of the items of a list. -/
def Position.listIndent (indent : Nat) : Position → Nat
  | .inline => indent + 2
  | .behindColon => indent

/-- Adds an item to the text of those before. -/
def addLine (indent : Nat) (before line : String) : String :=
  if before.isEmpty then line else onNextLine before (blanks indent ++ line)

mutual
/-- A report at a position within indented text. -/
def writeYaml (position : Position) (indent : Nat) : Report → String
  | .null => position.gap ++ "null"
  | .bool b => position.gap ++ toString b
  | .integer n => position.gap ++ toString n
  | .decimal x => position.gap ++ yamlDecimal x
  | .text s => position.gap ++ scalar indent false s
  | .list [] => position.gap ++ "[]"
  | .list (item :: items) =>
    let indent := position.listIndent indent
    position.lead indent ++ writeYamlItems indent "" (item :: items)
  | .map [] => position.gap ++ "\x7b\x7d"
  | .map (entry :: entries) =>
    position.lead (indent + 2) ++ writeYamlEntries (indent + 2) "" (entry :: entries)

/-- The items of a list behind the text of those before. -/
def writeYamlItems (indent : Nat) (before : String) : List Report → String
  | [] => before
  | r :: rest =>
    writeYamlItems indent (addLine indent before ("- " ++ writeYaml .inline indent r)) rest

/-- The entries of a map behind the text of those before. -/
def writeYamlEntries (indent : Nat) (before : String) : List (String × Report) → String
  | [] => before
  | (key, r) :: rest =>
    -- A key that may not stand on the line of its value is announced by a question mark.
    let line :=
      if isSimpleKey key then scalar indent true key ++ ":" ++ writeYaml .behindColon indent r
      else
        onNextLine ("? " ++ scalar indent false key)
          (blanks indent ++ ": " ++ writeYaml .inline indent r)
    writeYamlEntries indent (addLine indent before line) rest
end

/-- A report in YAML. A list or map at the top is not indented. -/
def toYaml (r : Report) : String :=
  let text :=
    match r with
    | .list (item :: items) => writeYamlItems 0 "" (item :: items)
    | .map (entry :: entries) => writeYamlEntries 0 "" (entry :: entries)
    | r => writeYaml .inline 0 r
  onNextLine text ""

end Deployment.Report
