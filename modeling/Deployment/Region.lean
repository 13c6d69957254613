import Deployment.Value

/-! # Regions

Every instance is deployed to a region. It is the first of these that is given: the attribute
`region`, the region of the provider configuration, and the attribute `availability_zone` without
the letter of the zone. Whatever is found has to be one of the known regions.
-/

namespace Deployment

/-- The regions there are. -/
def knownRegions : List String :=
  ["us-east-1", "us-east-2", "us-west-1", "us-west-2",
    "eu-west-1", "eu-west-2", "eu-west-3", "eu-central-1", "eu-north-1",
    "ap-south-1", "ap-southeast-1", "ap-southeast-2", "ap-northeast-1", "ap-northeast-2",
    "ap-northeast-3", "ca-central-1", "sa-east-1", "af-south-1", "ap-east-1", "me-south-1"]

/-- The attribute that gives the region of a resource or provider. -/
def regionAttribute : String := "region"

/-- The attribute that gives the zone of a resource. -/
def zoneAttribute : String := "availability_zone"

/-- The region of a zone: its name without the letter that follows the last digit. -/
def regionOfZone? (zone : String) : Option String :=
  match zone.toList.reverse with
  | letter :: digit :: _ =>
    if letter.isLower ∧ digit.isDigit then some (String.ofList zone.toList.dropLast) else none
  | _ => none

/-- Where a region was found. -/
inductive RegionOrigin
  | attribute
  | provider (key : String)
  | zone (name : String)
deriving DecidableEq, Repr

/-- An origin as messages name it. -/
def RegionOrigin.describe : RegionOrigin → String
  | .attribute => s!"`{regionAttribute}` attribute"
  | .provider key => s!"provider `{key}`"
  | .zone name => s!"`{zoneAttribute}` {name}"

/-- Why a resource or provider has no region. -/
inductive RegionError
  | unresolvable (owner : String)
  | unrecognized (owner region : String) (origin : RegionOrigin)
  | notText (owner name : String) (kind : Kind)
deriving DecidableEq, Repr

/-- The wording of a region error. -/
def RegionError.message : RegionError → String
  | .unresolvable owner =>
    s!"cannot determine the region of {owner}: no `{regionAttribute}`, provider region or " ++
      s!"`{zoneAttribute}`"
  | .unrecognized owner region origin =>
    s!"{owner}: unrecognized region `{region}` (from {origin.describe})"
  | .notText owner name kind => s!"{owner}: `{name}` must be a string, got {kind.name}"

/-- The regions of provider configurations by their keys. -/
abbrev ProviderRegions := Entries String

/-- The text of an attribute; an attribute that is null counts as absent. -/
def textAttribute? (attributes : Entries Value) (owner name : String) :
    Except RegionError (Option String) :=
  match attributes.get? name with
  | none | some .null => .ok none
  | some (.text s) => .ok (some s)
  | some v => .error (.notText owner name v.kind)

/-- A region that was found, if it is known. -/
def checkRegion (owner region : String) (origin : RegionOrigin) : Except RegionError String :=
  if knownRegions.contains region then .ok region
  else .error (.unrecognized owner region origin)

/-- The key of the provider configuration that a resource uses: the one it asks for, else its type
up to the first underscore. -/
def providerKey (type : String) (provider : Option String) : String :=
  provider.getD (String.ofList (type.toList.takeWhile (· != '_')))

/-- The region of a resource with evaluated attributes. -/
def resolveRegion (regions : ProviderRegions) (address type : String) (provider : Option String)
    (attributes : Entries Value) : Except RegionError String := do
  match ← textAttribute? attributes address regionAttribute with
  | some region => checkRegion address region .attribute
  | none =>
    let key := providerKey type provider
    match regions.get? key with
    | some region => checkRegion address region (.provider key)
    | none =>
      match ← textAttribute? attributes address zoneAttribute with
      | some zone =>
        match regionOfZone? zone with
        | some region => checkRegion address region (.zone zone)
        | none => .error (.unrecognized address zone (.zone zone))
      | none => .error (.unresolvable address)

end Deployment
