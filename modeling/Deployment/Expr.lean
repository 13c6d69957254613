import Deployment.Number.Arithmetic
import Deployment.Value

/-! # Expressions

The language inside `${ ... }`. A template is a sequence of plain text and interpolated
expressions; quoted text with interpolations is an expression again. A reference is a name followed
by attribute names, such as `var.region` or `each.value.size`.
-/

namespace Deployment

/-- The prefixed operators. -/
inductive UnaryOp
  | not
  | neg
deriving DecidableEq, Repr

/-- How a prefixed operator is written. -/
def UnaryOp.symbol : UnaryOp → String
  | .not => "!"
  | .neg => "-"

/-- The operators that compare by order. -/
inductive OrderOp
  | less
  | lessEqual
  | greater
  | greaterEqual
deriving DecidableEq, Repr

/-- Whether a comparison holds for two operands in a given order. -/
def OrderOp.holds : OrderOp → Ordering → Bool
  | .less, order => order.isLT
  | .lessEqual, order => order.isLE
  | .greater, order => order.isGT
  | .greaterEqual, order => order.isGE

/-- The operators between two operands. -/
inductive BinaryOp
  | or
  | and
  | equal
  | notEqual
  | order (op : OrderOp)
  | arithmetic (op : ArithmeticOp)
deriving DecidableEq, Repr

/-- How an operator is written. -/
def BinaryOp.symbol : BinaryOp → String
  | .or => "||"
  | .and => "&&"
  | .equal => "=="
  | .notEqual => "!="
  | .order .less => "<"
  | .order .lessEqual => "<="
  | .order .greater => ">"
  | .order .greaterEqual => ">="
  | .arithmetic op => op.symbol

/-- How tightly an operator binds: a higher level binds tighter. -/
def BinaryOp.level : BinaryOp → Nat
  | .or => 0
  | .and => 1
  | .equal | .notEqual => 2
  | .order _ => 3
  | .arithmetic .add | .arithmetic .sub => 4
  | .arithmetic .mul | .arithmetic .div | .arithmetic .mod => 5

/-- A name followed by attribute names. -/
structure Reference where
  root : String
  path : List String
deriving DecidableEq, Repr

/-- Whether a reference starts with `root.first`. -/
def Reference.startsWith (r : Reference) (root first : String) : Bool :=
  r.root == root && r.path.head? == some first

/-- How a reference is written. -/
def Reference.render (r : Reference) : String :=
  r.path.foldl (fun text name => text ++ "." ++ name) r.root

/-- A piece of a template: plain text, or something interpolated. -/
inductive Part (ε : Type)
  | text (s : String)
  | interpolation (e : ε)

/-- An expression. -/
inductive Expr
  | literal (value : Value)
  | template (parts : List (Part Expr))
  | reference (r : Reference)
  | list (items : List Expr)
  | map (entries : List (Expr × Expr))
  | attribute (object : Expr) (name : String)
  | index (object : Expr) (index : Expr)
  | unary (op : UnaryOp) (operand : Expr)
  | binary (op : BinaryOp) (left : Expr) (right : Expr)
  | conditional (condition : Expr) (yes : Expr) (no : Expr)
  | call (name : String) (args : List Expr)
deriving Inhabited

/-- Text with interpolated expressions. -/
abbrev Template := List (Part Expr)

namespace Template

/-- Whether a template interpolates anything. -/
def hasInterpolation (parts : Template) : Bool :=
  parts.any fun
    | .interpolation _ => true
    | .text _ => false

/-- The expression of a template that is one interpolation and nothing else. -/
def single? : Template → Option Expr
  | [.interpolation e] => some e
  | _ => none

/-- The text of a template without interpolations. -/
def literal? : Template → Option String
  | [] => some ""
  | .text s :: rest => (literal? rest).map (s ++ ·)
  | .interpolation _ :: _ => none

end Template

namespace Expr

mutual
/-- Equality of expressions, with literal values compared by value. -/
def beq : Expr → Expr → Bool
  | .literal a, .literal b => a == b
  | .template as, .template bs => beqParts as bs
  | .reference a, .reference b => a == b
  | .list as, .list bs => beqItems as bs
  | .map as, .map bs => beqEntries as bs
  | .attribute a n, .attribute b m => beq a b && n == m
  | .index a i, .index b j => beq a b && beq i j
  | .unary o a, .unary p b => o == p && beq a b
  | .binary o a c, .binary p b d => o == p && beq a b && beq c d
  | .conditional a c e, .conditional b d f => beq a b && beq c d && beq e f
  | .call n as, .call m bs => n == m && beqItems as bs
  | _, _ => false

/-- Equality of sequences of expressions. -/
def beqItems : List Expr → List Expr → Bool
  | [], [] => true
  | a :: as, b :: bs => beq a b && beqItems as bs
  | _, _ => false

/-- Equality of the entries of two map constructors, in order. -/
def beqEntries : List (Expr × Expr) → List (Expr × Expr) → Bool
  | [], [] => true
  | (k, a) :: as, (l, b) :: bs => beq k l && beq a b && beqEntries as bs
  | _, _ => false

/-- Equality of templates, part by part. -/
def beqParts : List (Part Expr) → List (Part Expr) → Bool
  | [], [] => true
  | .text s :: as, .text t :: bs => s == t && beqParts as bs
  | .interpolation a :: as, .interpolation b :: bs => beq a b && beqParts as bs
  | _, _ => false
end

instance : BEq Expr := ⟨beq⟩

end Expr

end Deployment
