import Deployment.Expr

/-! # References in expressions

The references of an expression, in the order in which they are written, and their replacement.
Both reach every position: operands, branches, arguments, map keys, indices and the interpolations
of nested quoted text.
-/

namespace Deployment.Expr

mutual
/-- The references of an expression. -/
def references : Expr → List Reference
  | .literal _ => []
  | .template parts => referencesOfParts parts
  | .reference r => [r]
  | .list items => referencesOfItems items
  | .map entries => referencesOfEntries entries
  | .attribute object _ => references object
  | .index object key => references object ++ references key
  | .unary _ operand => references operand
  | .binary _ left right => references left ++ references right
  | .conditional condition yes no => references condition ++ references yes ++ references no
  | .call _ args => referencesOfItems args

/-- The references of expressions in order. -/
def referencesOfItems : List Expr → List Reference
  | [] => []
  | e :: rest => references e ++ referencesOfItems rest

/-- The references of keys and values in order. -/
def referencesOfEntries : List (Expr × Expr) → List Reference
  | [] => []
  | (key, e) :: rest => references key ++ references e ++ referencesOfEntries rest

/-- The references of a template in order. -/
def referencesOfParts : List (Part Expr) → List Reference
  | [] => []
  | .text _ :: rest => referencesOfParts rest
  | .interpolation e :: rest => references e ++ referencesOfParts rest
end

mutual
/-- The expression with every reference replaced. -/
def replace (f : Reference → Expr) : Expr → Expr
  | .literal v => .literal v
  | .template parts => .template (replaceInParts f parts)
  | .reference r => f r
  | .list items => .list (replaceInItems f items)
  | .map entries => .map (replaceInEntries f entries)
  | .attribute object name => .attribute (replace f object) name
  | .index object key => .index (replace f object) (replace f key)
  | .unary op operand => .unary op (replace f operand)
  | .binary op left right => .binary op (replace f left) (replace f right)
  | .conditional condition yes no =>
    .conditional (replace f condition) (replace f yes) (replace f no)
  | .call name args => .call name (replaceInItems f args)

/-- Expressions with every reference replaced. -/
def replaceInItems (f : Reference → Expr) : List Expr → List Expr
  | [] => []
  | e :: rest => replace f e :: replaceInItems f rest

/-- Entries with every reference replaced, in keys and values. -/
def replaceInEntries (f : Reference → Expr) : List (Expr × Expr) → List (Expr × Expr)
  | [] => []
  | (key, e) :: rest => (replace f key, replace f e) :: replaceInEntries f rest

/-- A template with every reference replaced. -/
def replaceInParts (f : Reference → Expr) : List (Part Expr) → List (Part Expr)
  | [] => []
  | .text s :: rest => .text s :: replaceInParts f rest
  | .interpolation e :: rest => .interpolation (replace f e) :: replaceInParts f rest
end

end Deployment.Expr

namespace Deployment.Template

/-- The references of a template in order. -/
def references (parts : Template) : List Reference :=
  Expr.referencesOfParts parts

/-- The template with every reference replaced. -/
def replace (f : Reference → Expr) (parts : Template) : Template :=
  Expr.replaceInParts f parts

end Deployment.Template
