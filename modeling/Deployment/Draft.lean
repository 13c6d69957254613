import Deployment.Template.Escape
import Deployment.Value

/-! # Drafts

A draft is the value of an attribute before evaluation: data whose texts and map keys are templates
and may interpolate expressions. A value becomes a draft by escaping the markers in its texts, so
that evaluating the draft gives the value back.
-/

namespace Deployment

/-- Data that is not evaluated yet. -/
inductive Draft
  | null
  | bool (b : Bool)
  | number (n : Number)
  | text (template : String)
  | list (items : List Draft)
  | map (entries : List (String × Draft))
deriving Inhabited

namespace Draft

mutual
/-- The draft that evaluates to a value. -/
def ofValue : Value → Draft
  | .null => .null
  | .bool b => .bool b
  | .number n => .number n
  | .text s => .text (Template.plain s)
  | .list items => .list (ofItems items)
  | .map entries => .map (ofEntries entries)

/-- The drafts of values in order. -/
def ofItems : List Value → List Draft
  | [] => []
  | v :: rest => ofValue v :: ofItems rest

/-- The drafts of entries in order, with their keys escaped. -/
def ofEntries : List (String × Value) → List (String × Draft)
  | [] => []
  | (key, v) :: rest => (Template.plain key, ofValue v) :: ofEntries rest
end

/-- Text that evaluates an expression. -/
def interpolation (source : String) : Draft :=
  .text ("$\x7b" ++ source ++ "\x7d")

mutual
/-- A draft as messages show it. -/
def render : Draft → String
  | .null => "null"
  | .bool b => toString b
  | .number n => n.toText
  | .text template => template
  | .list items => "[" ++ renderItems items ++ "]"
  | .map entries => "\x7b" ++ renderEntries entries ++ " \x7d"

/-- Drafts separated by commas. -/
def renderItems : List Draft → String
  | [] => ""
  | [d] => d.render
  | d :: rest => d.render ++ ", " ++ renderItems rest

/-- Entries separated by commas, each behind a blank. -/
def renderEntries : List (String × Draft) → String
  | [] => ""
  | [(key, d)] => " " ++ key ++ " = " ++ d.render
  | (key, d) :: rest => " " ++ key ++ " = " ++ d.render ++ "," ++ renderEntries rest
end

end Draft

end Deployment
