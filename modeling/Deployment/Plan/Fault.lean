import Deployment.Document
import Deployment.Document.Issue
import Deployment.Failure
import Deployment.FileTree.Loading
import Deployment.Region

/-! # Faults of a plan

Everything that can keep a configuration from being planned.
-/

namespace Deployment

/-- Why a module cannot be planned. -/
inductive ModuleFault
  | remoteSource (source : String)
  | repeated
  | tooDeep (limit : Nat)
  | noDirectory
deriving DecidableEq, Repr

/-- The wording of a module fault. -/
def ModuleFault.message : ModuleFault → String
  | .remoteSource source => s!"remote source `{source}` is not supported"
  | .repeated => s!"`{countAttribute}` and `{forEachAttribute}` are not supported on modules"
  | .tooDeep limit => s!"nesting exceeds the maximum module depth of {limit}"
  | .noDirectory => "local sources can only be loaded when evaluating a path"

/-- Why a configuration cannot be planned. -/
inductive Fault
  | load (e : LoadError)
  | document (e : DocumentError)
  | evaluation (e : Failure)
  | region (e : RegionError)
  | module (name : String) (fault : ModuleFault)
deriving DecidableEq, Repr

/-- The wording of a fault. -/
def Fault.message : Fault → String
  | .load e => e.message
  | .document e => e.message
  | .evaluation e => e.message
  | .region e => e.message
  | .module name fault => s!"module `{name}`: {fault.message}"

end Deployment
