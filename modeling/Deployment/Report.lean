import Deployment.Plan.Planned

/-! # Reports

A report is plain data to be written in some notation. Its integers are unbounded, since the index
of an instance may be larger than the integers of values.
-/

namespace Deployment

/-- Plain data to be written. -/
inductive Report
  | null
  | bool (b : Bool)
  | integer (n : Int)
  | decimal (x : Float)
  | text (s : String)
  | list (items : List Report)
  | map (entries : List (String × Report))
deriving Inhabited

namespace Report

mutual
/-- A value as a report. -/
def ofValue : Value → Report
  | .null => .null
  | .bool b => .bool b
  | .number (.integer n) => .integer n.toInt
  | .number (.decimal x) => .decimal x
  | .text s => .text s
  | .list items => .list (ofItems items)
  | .map entries => .map (ofEntries entries)

/-- Values as reports, in order. -/
def ofItems : List Value → List Report
  | [] => []
  | v :: rest => ofValue v :: ofItems rest

/-- Entries as reports, in order. -/
def ofEntries : List (String × Value) → List (String × Report)
  | [] => []
  | (key, v) :: rest => (key, ofValue v) :: ofEntries rest
end

/-- The key of an instance as a report. -/
def ofKey : IndexKey → Report
  | .number n => .integer n
  | .text s => .text s

/-- A planned instance as a report. -/
def ofPlanned (p : Planned) : Report :=
  .map [
    ("logical_id", .text p.identifier),
    ("resource_type", .text p.type),
    ("physical_index", ofKey p.index),
    ("resolved_attributes", .map (ofEntries p.attributes)),
    ("resolved_region", .text p.region)]

/-- A plan as a report. -/
def ofPlan (plan : List Planned) : Report :=
  .list (plan.map ofPlanned)

end Report

end Deployment
