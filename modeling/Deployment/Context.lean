import Deployment.Value

/-! # Contexts

A context holds the values that expressions refer to: variables as `var.name` and local values as
`local.name`.
-/

namespace Deployment

/-- The values in scope. -/
structure Context where
  vars : Entries Value
  locals : Entries Value

end Deployment
