import Deployment.Instance
import Deployment.Service

/-! # Planned instances

What planning a configuration results in: instances with all attributes evaluated. The identifier
of an instance within modules starts with their names: `module.network.private["a"]`.
-/

namespace Deployment

/-- What the identifiers within a module start with. -/
def moduleMark : String := "module."

/-- The prefix of the identifiers within a module. -/
def modulePrefix (name : String) : String :=
  moduleMark ++ name ++ "."

/-- An instance with evaluated attributes. -/
structure Planned where
  identifier : String
  type : String
  index : IndexKey
  attributes : Entries Value
  region : String

/-- The text behind `module.` and a name with its point, if a text starts so. -/
def afterModule? (text : List Char) : Option (List Char) :=
  if moduleMark.toList.isPrefixOf text then
    match (text.drop moduleMark.length).dropWhile (· != '.') with
    | _ :: rest => some rest
    | [] => none
  else none

theorem afterModule?_lt {text rest : List Char} (h : afterModule? text = some rest) :
    rest.length < text.length := by
  unfold afterModule? at h
  split at h
  · split at h
    · rename_i tail heq
      have hle := (List.dropWhile_suffix (· != '.')
        (l := text.drop moduleMark.length)).length_le
      simp only [heq, List.length_cons, List.length_drop, Option.some.injEq] at hle h
      rw [← h]
      omega
    · simp at h
  · simp at h

/-- The part of an identifier behind the names of its modules. -/
def localIdentifier (text : List Char) : List Char :=
  match h : afterModule? text with
  | some rest =>
    have := afterModule?_lt h
    localIdentifier rest
  | none => text
termination_by text.length

/-- An identifier split behind the names of its modules. -/
def splitModules (identifier : String) : String × String :=
  let text := identifier.toList
  let own := localIdentifier text
  (String.ofList (text.take (text.length - own.length)), String.ofList own)

namespace Planned

/-- The address of a planned instance: the names of its modules, its type and its identifier. -/
def address (p : Planned) : String :=
  let (modules, own) := splitModules p.identifier
  modules ++ p.type ++ "." ++ own

/-- The service that the instance belongs to. -/
def service? (p : Planned) : Option Service :=
  Service.ofType? p.type

/-- The instance as seen from outside of a module. -/
def within (name : String) (p : Planned) : Planned :=
  { p with identifier := modulePrefix name ++ p.identifier }

end Planned

end Deployment
