import Deployment.Expr
import Deployment.Template.Escape

/-! # Expressions as text

`Expr.render` writes source text for an expression. Operands of operators and of accesses are put in
parentheses if they are operations themselves or negative numbers; map keys are put in parentheses
unless they are literals or quoted text. Not every text is read as the same expression again: an
attribute of a bare name is written like a longer reference, and plain text that ends in a dollar
sign runs into the interpolation behind it.
-/

namespace Deployment

namespace Value

mutual
/-- A value as source text. -/
def render : Value → String
  | .null => "null"
  | .bool b => toString b
  | .number n => n.write .expression
  | .text s => "\"" ++ Template.quoted s ++ "\""
  | .list items => "[" ++ renderItems items ++ "]"
  | .map [] => "\x7b\x7d"
  | .map (entry :: entries) => "\x7b " ++ renderEntries (entry :: entries) ++ " \x7d"

/-- The items of a list, separated by commas. -/
def renderItems : List Value → String
  | [] => ""
  | [v] => v.render
  | v :: rest => v.render ++ ", " ++ renderItems rest

/-- The entries of a map, separated by commas. -/
def renderEntries : List (String × Value) → String
  | [] => ""
  | [(key, v)] => "\"" ++ Template.quoted key ++ "\" = " ++ v.render
  | (key, v) :: rest =>
    "\"" ++ Template.quoted key ++ "\" = " ++ v.render ++ ", " ++ renderEntries rest
end

end Value

namespace Expr

/-- Whether an expression has to be in parentheses as an operand. -/
def needsParens : Expr → Bool
  | .binary .. | .conditional .. | .unary .. => true
  | .literal (.number n) => n.toFloat < 0.0
  | _ => false

/-- Whether a map key is written without parentheses. -/
def isBareKey : Expr → Bool
  | .literal _ | .template _ => true
  | _ => false

/-- Text in parentheses if a condition holds. -/
def parensIf (condition : Bool) (text : String) : String :=
  if condition then "(" ++ text ++ ")" else text

mutual
/-- An expression as source text. -/
def render : Expr → String
  | .literal value => value.render
  | .template parts => "\"" ++ renderParts true parts ++ "\""
  | .reference r => r.render
  | .list items => "[" ++ renderItems items ++ "]"
  | .map [] => "\x7b\x7d"
  | .map (entry :: entries) => "\x7b " ++ renderEntries (entry :: entries) ++ " \x7d"
  | .attribute object name => parensIf object.needsParens object.render ++ "." ++ name
  | .index object key =>
    parensIf object.needsParens object.render ++ "[" ++ key.render ++ "]"
  | .unary op operand => op.symbol ++ parensIf operand.needsParens operand.render
  | .binary op left right =>
    parensIf left.needsParens left.render ++ " " ++ op.symbol ++ " " ++
      parensIf right.needsParens right.render
  | .conditional condition yes no =>
    parensIf condition.needsParens condition.render ++ " ? " ++
      parensIf yes.needsParens yes.render ++ " : " ++ parensIf no.needsParens no.render
  | .call name args => name ++ "(" ++ renderItems args ++ ")"

/-- Expressions separated by commas. -/
def renderItems : List Expr → String
  | [] => ""
  | [e] => e.render
  | e :: rest => e.render ++ ", " ++ renderItems rest

/-- The entries of a map constructor, separated by commas. -/
def renderEntries : List (Expr × Expr) → String
  | [] => ""
  | [(key, e)] => parensIf (!key.isBareKey) key.render ++ " = " ++ e.render
  | (key, e) :: rest =>
    parensIf (!key.isBareKey) key.render ++ " = " ++ e.render ++ ", " ++ renderEntries rest

/-- A template as source text, within quotes or on its own. -/
def renderParts (inQuotes : Bool) : List (Part Expr) → String
  | [] => ""
  | .text s :: rest =>
    (if inQuotes then Template.quoted s else Template.plain s) ++ renderParts inQuotes rest
  | .interpolation e :: rest => "$\x7b" ++ e.render ++ "\x7d" ++ renderParts inQuotes rest
end

end Expr

/-- A template as source text, within quotes or on its own. What is plain text is escaped part by
part, without a look at the part that follows. -/
def Template.render (inQuotes : Bool) (parts : Template) : String :=
  Expr.renderParts inQuotes parts

end Deployment
