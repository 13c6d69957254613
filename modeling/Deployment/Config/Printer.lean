import Deployment.Config.Quoted
import Deployment.Config.Term
import Deployment.Decimal.Layout

/-! # Terms as text

`Term.render` writes a term as source. Binary operators have a blank on either side, and templates
stand as they are. Arrays and objects are on one line within the arguments of a call and within a
conditional; elsewhere they are spread over lines, indented by their depth.

Items are separated by commas, with one exception: an item behind an array or object that is empty
is set apart like a first item, so no comma stands before it (`Term.endsEmpty`).
-/

namespace Deployment.Config

/-- A numeral as source. -/
def Numeral.render : Numeral → String
  | .integer n => toString n
  | .decimal x => Decimal.Layout.source.write x

/-- Names separated by commas. -/
def renderNames (names : List String) : String :=
  ", ".intercalate names

/-! ## Items -/

mutual
/-- For each array and object within a term, in the order in which they start, whether it is
empty. -/
def Term.emptiness : Term → List Bool
  | .array items => items.isEmpty :: itemsEmptiness items
  | .object entries => entries.isEmpty :: entriesEmptiness entries
  | .parens inner => inner.emptiness
  | .conditional condition yes no => condition.emptiness ++ yes.emptiness ++ no.emptiness
  | .unary _ operand => operand.emptiness
  | .chain first rest => first.emptiness ++ chainEmptiness rest
  | .call _ args _ => itemsEmptiness args
  | .traversal object accesses => object.emptiness ++ accessesEmptiness accesses
  | .forList _ collection result condition =>
    collection.emptiness ++ result.emptiness ++ conditionEmptiness condition
  | .forObject _ collection key result _ condition =>
    collection.emptiness ++ key.emptiness ++ result.emptiness ++ conditionEmptiness condition
  | .null | .bool _ | .number _ | .text _ | .template _ | .heredoc .. | .variable _ => []

/-- The arrays and objects within terms. -/
def itemsEmptiness : List Term → List Bool
  | [] => []
  | t :: rest => t.emptiness ++ itemsEmptiness rest

/-- The arrays and objects within object entries. -/
def entriesEmptiness : List (Term × Term) → List Bool
  | [] => []
  | (key, t) :: rest => key.emptiness ++ t.emptiness ++ entriesEmptiness rest

/-- The arrays and objects within the right operands of operators. -/
def chainEmptiness : List (BinaryOp × Term) → List Bool
  | [] => []
  | (_, t) :: rest => t.emptiness ++ chainEmptiness rest

/-- The arrays and objects within accesses. -/
def accessesEmptiness : List (Access Term) → List Bool
  | [] => []
  | .index t :: rest => t.emptiness ++ accessesEmptiness rest
  | _ :: rest => accessesEmptiness rest

/-- The arrays and objects within the condition of a `for` expression. -/
def conditionEmptiness : Option Term → List Bool
  | none => []
  | some t => t.emptiness
end

/-- Whether the array or object that starts last within a term is empty. -/
def Term.endsEmpty (t : Term) : Bool :=
  t.emptiness.getLast?.getD false

/-- Whether the array or object that starts last within an object entry is empty. -/
def entryEndsEmpty (key t : Term) : Bool :=
  (key.emptiness ++ t.emptiness).getLast?.getD false

/-- The start of a line at a depth of indentation. -/
def lineStart (depth : Nat) : String :=
  "\n" ++ String.ofList (List.replicate (2 * depth) ' ')

/-- What stands before the first item of an array or object, between two items and behind the last
one. -/
structure Spacing where
  first : String
  between : String
  last : String

/-- The spacing of the items of an array. Without a depth, all is on one line. -/
def Spacing.array : Option Nat → Spacing
  | none => ⟨"", ", ", ""⟩
  | some depth => ⟨lineStart (depth + 1), "," ++ lineStart (depth + 1), lineStart depth⟩

/-- The spacing of the entries of an object. Without a depth, all is on one line. -/
def Spacing.object : Option Nat → Spacing
  | none => ⟨" ", ", ", " "⟩
  | some depth => ⟨lineStart (depth + 1), lineStart (depth + 1), lineStart depth⟩

/-- What stands behind an item, depending on whether that ends with an empty array or object. -/
def Spacing.separator (spacing : Spacing) (endsEmpty : Bool) : String :=
  if endsEmpty then spacing.first else spacing.between

/-- The depth within an array or object. -/
def deeper : Option Nat → Option Nat :=
  Option.map (· + 1)

/-! ## Terms -/

mutual
/-- A term as source at a depth of indentation; without one, on one line. -/
def Term.write (depth : Option Nat) : Term → String
  | .null => "null"
  | .bool b => toString b
  | .number n => n.render
  | .text s => "\"" ++ QuoteStyle.expression.write s ++ "\""
  | .array [] => "[]"
  | .array (item :: items) =>
    let spacing := Spacing.array depth
    "[" ++ spacing.first ++ writeItems (deeper depth) spacing (item :: items) ++ spacing.last ++ "]"
  | .object [] => "\x7b\x7d"
  | .object (entry :: entries) =>
    let spacing := Spacing.object depth
    "\x7b" ++ spacing.first ++ writeEntries (deeper depth) spacing (entry :: entries) ++
      spacing.last ++ "\x7d"
  | .template source => "\"" ++ source ++ "\""
  | .heredoc indented delimiter source =>
    (if indented then "<<-" else "<<") ++ delimiter ++ "\n" ++ source ++
      (if source.endsWith "\n" then "" else "\n") ++ delimiter
  | .parens inner => "(" ++ inner.write depth ++ ")"
  | .variable name => name
  | .conditional condition yes no =>
    condition.write none ++ " ? " ++ yes.write none ++ " : " ++ no.write none
  | .unary op operand => op.symbol ++ operand.write depth
  | .chain first rest => first.write depth ++ writeChain depth rest
  | .call name args expandLast =>
    name ++ "(" ++ writeArguments args ++ (if expandLast then "...)" else ")")
  | .traversal object accesses => object.write depth ++ writeAccesses depth accesses
  | .forList names collection result condition =>
    "[for " ++ renderNames names ++ " in " ++ collection.write depth ++ " : " ++
      result.write depth ++ writeCondition depth condition ++ "]"
  | .forObject names collection key result grouping condition =>
    "\x7bfor " ++ renderNames names ++ " in " ++ collection.write depth ++ " : " ++
      key.write depth ++ " => " ++ result.write depth ++ (if grouping then "..." else "") ++
      writeCondition depth condition ++ "\x7d"

/-- The items of an array. -/
def writeItems (depth : Option Nat) (spacing : Spacing) : List Term → String
  | [] => ""
  | [t] => t.write depth
  | t :: rest =>
    t.write depth ++ spacing.separator t.endsEmpty ++ writeItems depth spacing rest

/-- The entries of an object. -/
def writeEntries (depth : Option Nat) (spacing : Spacing) : List (Term × Term) → String
  | [] => ""
  | [(key, t)] => key.write depth ++ " = " ++ t.write depth
  | (key, t) :: rest =>
    key.write depth ++ " = " ++ t.write depth ++ spacing.separator (entryEndsEmpty key t) ++
      writeEntries depth spacing rest

/-- The arguments of a call. -/
def writeArguments : List Term → String
  | [] => ""
  | [t] => t.write none
  | t :: rest => t.write none ++ ", " ++ writeArguments rest

/-- Operators with their right operands. -/
def writeChain (depth : Option Nat) : List (BinaryOp × Term) → String
  | [] => ""
  | (op, t) :: rest => " " ++ op.symbol ++ " " ++ t.write depth ++ writeChain depth rest

/-- The accesses behind a term. -/
def writeAccesses (depth : Option Nat) : List (Access Term) → String
  | [] => ""
  | .attribute name :: rest => "." ++ name ++ writeAccesses depth rest
  | .position digits :: rest => "." ++ toString digits ++ writeAccesses depth rest
  | .index t :: rest => "[" ++ t.write depth ++ "]" ++ writeAccesses depth rest
  | .attributeSplat :: rest => ".*" ++ writeAccesses depth rest
  | .fullSplat :: rest => "[*]" ++ writeAccesses depth rest

/-- The condition of a `for` expression. -/
def writeCondition (depth : Option Nat) : Option Term → String
  | none => ""
  | some t => " if " ++ t.write depth
end

/-- A term as source. -/
def Term.render (t : Term) : String :=
  t.write (some 0)

end Deployment.Config
