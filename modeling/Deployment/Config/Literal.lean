import Deployment.Config.Printer
import Deployment.Draft
import Deployment.Expr.Parser
import Deployment.Expr.Printer

/-! # Terms as data

A term that is plain data has a value (`Term.toValue`), unless one of its numbers is negated and has
no opposite within 64 bits: there the conversion overflows. Every term has a draft (`Term.toDraft`):
plain data stays data, a quoted template becomes text with the same interpolations, and all else
becomes text that interpolates the term as it is written.
-/

namespace Deployment.Config

/-- Why a term has no value. -/
inductive ConversionError
  /-- It was to be plain data and is not: the part at fault as it is written. -/
  | notLiteral (expr : String)
  /-- A number has no opposite within 64 bits. No check precedes the negation, and nothing is done
  about its failure: the program ends there. -/
  | overflow
deriving DecidableEq, Repr

/-- The wording of a conversion error. -/
def ConversionError.message : ConversionError → String
  | .notLiteral expr => s!"`{expr}` is not a literal value"
  | .overflow => "attempt to negate with overflow"

/-- A numeral as a number: an integer if it fits 64 bits, else the nearest decimal. -/
def Numeral.toNumber : Numeral → Number
  | .integer n => (Number.ofInt? n).getD (.decimal (Float.ofInt n))
  | .decimal x => .decimal x

/-- The number of opposite sign. The least integer has none among those of 64 bits. -/
def oppositeNumber : Number → Except ConversionError Number
  | .integer n => if n = Int64.minValue then .error .overflow else .ok (.integer (-n))
  | .decimal x => .ok (.decimal (-x))

/-- The key of an object entry that is plain data: a bare name or quoted text. -/
def literalKey : Term → Except ConversionError String
  | .variable name => .ok name
  | .text s => .ok s
  | key => .error (.notLiteral key.render)

mutual
/-- The value of a term that is plain data. -/
def Term.toValue : Term → Except ConversionError Value
  | .null => .ok .null
  | .bool b => .ok (.bool b)
  | .number n => .ok (.number n.toNumber)
  | .text s => .ok (.text s)
  | .array items => do .ok (.list (← itemValues items))
  | .object entries => do .ok (.map (Entries.ofPairs (← entryValues entries)))
  | .parens inner => inner.toValue
  | .unary .neg (.number n) => do .ok (.number (← oppositeNumber n.toNumber))
  | t => .error (.notLiteral t.render)

/-- The values of terms in order. -/
def itemValues : List Term → Except ConversionError (List Value)
  | [] => .ok []
  | t :: rest => do
    let v ← t.toValue
    .ok (v :: (← itemValues rest))

/-- The entries of an object in order. -/
def entryValues : List (Term × Term) → Except ConversionError (List (String × Value))
  | [] => .ok []
  | (key, t) :: rest => do
    let name ← literalKey key
    let v ← t.toValue
    .ok ((name, v) :: (← entryValues rest))
end

/-- The key of a draft's entry: a name or text is kept, another term is interpolated. -/
def draftKey : Term → String
  | .variable name => Template.plain name
  | .text s => Template.plain s
  | key => "$\x7b" ++ key.render ++ "\x7d"

/-- The text of a quoted template whose source is given: escapes are decoded, markers stay. Source
that cannot be read is kept. -/
def templateText (source : String) : String :=
  match Template.parse source true with
  | .ok t => t.render false
  | .error _ => source

mutual
/-- The draft of a term. -/
def Term.toDraft : Term → Draft
  | .null => .null
  | .bool b => .bool b
  | .number n => .number n.toNumber
  | .text s => .text (Template.plain s)
  | .array items => .list (itemDrafts items)
  | .object entries => .map (Entries.ofPairs (entryDrafts entries))
  | .template source => .text (templateText source)
  | .heredoc _ _ source => .text source
  | t => .interpolation t.render

/-- The drafts of terms in order. -/
def itemDrafts : List Term → List Draft
  | [] => []
  | t :: rest => t.toDraft :: itemDrafts rest

/-- The drafts of the entries of an object in order. -/
def entryDrafts : List (Term × Term) → List (String × Draft)
  | [] => []
  | (key, t) :: rest => (draftKey key, t.toDraft) :: entryDrafts rest
end

end Deployment.Config
