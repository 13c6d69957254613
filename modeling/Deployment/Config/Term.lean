import Deployment.Expr

/-! # Configuration source

A configuration file is a body: attributes, which give a name a term, and blocks, which have a type,
labels and a body of their own. A term is what stands behind the `=` of an attribute. Terms have
more forms than the expressions that are evaluated; they are kept only as far as needed to tell
plain data from expressions and to write the expressions down again.
-/

namespace Deployment.Config

/-- A number in source. Whole numbers that fit 64 bits, with or without a sign, are integers. -/
inductive Numeral
  | integer (n : Int)
  | decimal (x : Float)
deriving Inhabited

/-- An access behind a term. -/
inductive Access (τ : Type)
  | attribute (name : String)
  | position (digits : Nat)
  | index (t : τ)
  | attributeSplat
  | fullSplat

/-- A term. The key of an object entry is a variable if it is a bare name. Templates are kept as
source. -/
inductive Term
  | null
  | bool (b : Bool)
  | number (n : Numeral)
  | text (s : String)
  | array (items : List Term)
  | object (entries : List (Term × Term))
  | template (source : String)
  | heredoc (indented : Bool) (delimiter : String) (source : String)
  | parens (inner : Term)
  | variable (name : String)
  | conditional (condition : Term) (yes : Term) (no : Term)
  | unary (op : UnaryOp) (operand : Term)
  /-- Operands with operators between them, in the order of the source. -/
  | chain (first : Term) (rest : List (BinaryOp × Term))
  | call (name : String) (args : List Term) (expandLast : Bool)
  | traversal (object : Term) (accesses : List (Access Term))
  | forList (names : List String) (collection : Term) (result : Term) (condition : Option Term)
  | forObject (names : List String) (collection : Term) (key : Term) (result : Term)
      (grouping : Bool) (condition : Option Term)
deriving Inhabited

/-- An element of a body. -/
inductive Structure
  | attribute (name : String) (value : Term)
  | block (type : String) (labels : List String) (body : List Structure)

/-- A block, with its parts. -/
structure Block where
  type : String
  labels : List String
  body : List Structure

/-- The attributes of a body in order. -/
def attributesOf (body : List Structure) : List (String × Term) :=
  body.filterMap fun
    | .attribute name value => some (name, value)
    | .block .. => none

/-- The blocks of a body in order. -/
def blocksOf (body : List Structure) : List Block :=
  body.filterMap fun
    | .attribute .. => none
    | .block type labels body => some ⟨type, labels, body⟩

end Deployment.Config
