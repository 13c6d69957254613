import Deployment.Entries
import Deployment.Number

/-! # Values

A value is what an expression evaluates to: plain data without any expression text in it. Text that
reads as a number stands in for one where a number is wanted, and `"true"` and `"false"` stand in
for the truth values. Two maps are equal if they have the same entries, in whatever order.
-/

namespace Deployment

/-- Evaluated data. -/
inductive Value
  | null
  | bool (b : Bool)
  | number (n : Number)
  | text (s : String)
  | list (items : List Value)
  | map (entries : List (String × Value))
deriving Inhabited

/-- The kinds of values, as messages name them. -/
inductive Kind
  | null
  | bool
  | number
  | text
  | list
  | map
deriving DecidableEq, Repr

/-- The name of a kind. -/
def Kind.name : Kind → String
  | .null => "null"
  | .bool => "bool"
  | .number => "number"
  | .text => "string"
  | .list => "list"
  | .map => "map"

namespace Value

/-- The kind of a value. -/
def kind : Value → Kind
  | .null => .null
  | .bool _ => .bool
  | .number _ => .number
  | .text _ => .text
  | .list _ => .list
  | .map _ => .map

/-- The value as a number, reading numeric text. -/
def number? : Value → Option Number
  | .number n => some n
  | .text s => Number.parse? s
  | _ => none

/-- The value as a truth value, reading `true` and `false`. -/
def bool? : Value → Option Bool
  | .bool b => some b
  | .text "true" => some true
  | .text "false" => some false
  | _ => none

/-- The text that stands for the value when it is spliced into other text. -/
def text? : Value → Option String
  | .bool b => some (toString b)
  | .number n => some n.toText
  | .text s => some s
  | .null | .list _ | .map _ => none

mutual
/-- Equality of values. -/
def beq : Value → Value → Bool
  | .null, .null => true
  | .bool a, .bool b => a == b
  | .number a, .number b => a == b
  | .text a, .text b => a == b
  | .list as, .list bs => beqItems as bs
  | .map as, .map bs => as.length == bs.length && beqEntries as bs
  | _, _ => false

/-- Equality of lists, item by item. -/
def beqItems : List Value → List Value → Bool
  | [], [] => true
  | a :: as, b :: bs => beq a b && beqItems as bs
  | _, _ => false

/-- Whether every entry on the left has an equal entry on the right. -/
def beqEntries : List (String × Value) → List (String × Value) → Bool
  | [], _ => true
  | (key, a) :: rest, bs =>
    (match Entries.get? bs key with
      | some b => beq a b
      | none => false) && beqEntries rest bs
end

instance : BEq Value := ⟨beq⟩

/-- An integer as a value, if it fits 64 bits. -/
def ofInt? (n : Int) : Option Value :=
  (Number.ofInt? n).map .number

end Value

end Deployment
