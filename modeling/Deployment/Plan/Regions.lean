import Deployment.Draft.Evaluation
import Deployment.Plan.Fault

/-! # Regions of provider configurations

A document's provider configurations add their regions to the inherited ones and replace those of
the same key. A configuration without a region, or with the region null, changes nothing.
-/

namespace Deployment

/-- The region that a provider configuration gives. -/
def providerRegion (context : Context) (p : Provider) : Except Fault (Option String) :=
  match p.attributes.get? regionAttribute with
  | none => .ok none
  | some d =>
    let owner := "provider." ++ p.key
    match d.evaluate context (Draft.entryLocation owner regionAttribute) with
    | .error e => .error (.evaluation e)
    | .ok .null => .ok none
    | .ok (.text region) => .ok (some region)
    | .ok v => .error (.region (.notText owner regionAttribute v.kind))

/-- Adds the regions of provider configurations in order, up to one whose region cannot be
determined. -/
def registerProviders (context : Context) (regions : ProviderRegions) :
    List Provider → ProviderRegions × Option Fault
  | [] => (regions, none)
  | p :: rest =>
    match providerRegion context p with
    | .ok none => registerProviders context regions rest
    | .ok (some region) => registerProviders context (regions.put p.key region) rest
    | .error fault => (regions, some fault)

end Deployment
