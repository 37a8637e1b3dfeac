import FiveSpot.Common

/-!
# The verdict of a spot-schedule provider

`reconcilers/spot_schedule.rs` and the two functions that consume its verdict. The verdict is read
off the provider's duck-typed status; a provider that cannot be read is unresolved and the last
known value is held.
-/

namespace FiveSpot

set_option autoImplicit false

structure SpotScheduleRef where
  apiVersion : String
  kind : String
  name : String
  deriving DecidableEq

def spotScheduleApiGroup : String := "spotschedules.5spot.finos.org"

def SpotScheduleRef.group (r : SpotScheduleRef) : String :=
  match Text.splitOnce '/' r.apiVersion with
  | some (group, _) => group
  | none => r.apiVersion

def SpotScheduleRef.isSpotScheduleGroup (r : SpotScheduleRef) : Bool :=
  r.group == spotScheduleApiGroup

structure SpotScheduleStatus where
  resolved : Bool
  active : Option Bool
  reason : Option String
  message : Option String
  providerGeneration : Option Int
  lastTransitionTime : Option Timestamp
  deriving DecidableEq

inductive SpotScheduleVerdict where
  | active (providerGeneration : Option Int)
  | inactive (providerGeneration : Option Int)
  | unresolved (reason message : String)
  deriving DecidableEq

def reasonSpotScheduleResolved : String := "Resolved"
def reasonSpotScheduleProviderCrdNotInstalled : String := "ProviderCRDNotInstalled"
def reasonSpotScheduleProviderNotFound : String := "ProviderNotFound"
def reasonSpotScheduleStatusActiveMissing : String := "StatusActiveMissing"
def reasonSpotScheduleProviderNotReady : String := "ProviderNotReady"

namespace SpotScheduleVerdict

def isResolved : SpotScheduleVerdict → Bool
  | .unresolved _ _ => false
  | _ => true

def isActive? : SpotScheduleVerdict → Option Bool
  | .active _ => some true
  | .inactive _ => some false
  | .unresolved _ _ => none

def providerGeneration : SpotScheduleVerdict → Option Int
  | .active g => g
  | .inactive g => g
  | .unresolved _ _ => none

def reason : SpotScheduleVerdict → String
  | .unresolved reason _ => reason
  | _ => reasonSpotScheduleResolved

def unresolvedMessage : SpotScheduleVerdict → Option String
  | .unresolved _ message => some message
  | _ => none

end SpotScheduleVerdict

/-- A `Ready` condition that is present and not `"True"`. -/
def readyConditionBlocks (status : Json) : Bool :=
  match (status.get? "conditions").bind Json.asArray? with
  | none => false
  | some conditions =>
      match conditions.find? fun c => (c.get? "type").bind Json.asStr? == some conditionTypeReady with
      | none => false
      | some ready => (ready.get? "status").bind Json.asStr? != some conditionStatusTrue

def verdictFromStatus : Option Json → SpotScheduleVerdict
  | none => .unresolved reasonSpotScheduleStatusActiveMissing "provider status is absent"
  | some status =>
      match (status.get? "active").bind Json.asBool? with
      | none =>
          .unresolved reasonSpotScheduleStatusActiveMissing
            "provider status.active is absent or not a boolean"
      | some active =>
          if readyConditionBlocks status then
            .unresolved reasonSpotScheduleProviderNotReady "provider Ready condition is not True"
          else
            let generation := (status.get? "observedGeneration").bind Json.asI64?
            if active then .active generation else .inactive generation

/--
`resolve_spot_schedule` over the two API calls it makes: discovery of the provider's kind and a GET
of the object. A failed discovery is a verdict, a failed GET is an error.
-/
def resolveSpotSchedule {m : Type → Type} [Monad m]
    (pinnedKind : String → String → String → m (Except KubeError Unit))
    (getOpt : String → String → m (Except KubeError (Option Json)))
    (ns : String) (reference : SpotScheduleRef) : m (Except KubeError SpotScheduleVerdict) := do
  let (group, version) := (Text.splitOnce '/' reference.apiVersion).getD ("", reference.apiVersion)
  match ← pinnedKind group version reference.kind with
  | .error e =>
      return .ok (.unresolved reasonSpotScheduleProviderCrdNotInstalled
        ("no CRD for " ++ group ++ "/" ++ version ++ " kind " ++ reference.kind ++
          " is installed: " ++ e.text))
  | .ok () =>
      match ← getOpt ns reference.name with
      | .error e => return .error e
      | .ok none =>
          return .ok (.unresolved reasonSpotScheduleProviderNotFound
            ("provider " ++ reference.kind ++ " " ++ ns ++ "/" ++ reference.name ++ " not found"))
      | .ok (some object) => return .ok (verdictFromStatus (object.get? "status"))

def composeShouldBeActive (verdict : SpotScheduleVerdict) (lastKnown : Option Bool) : Bool :=
  match verdict with
  | .active _ => true
  | .inactive _ => false
  | .unresolved _ _ => lastKnown.getD false

theorem composeShouldBeActive_eq (verdict : SpotScheduleVerdict) (lastKnown : Option Bool) :
    composeShouldBeActive verdict lastKnown = (verdict.isActive?.or lastKnown).getD false := by
  cases verdict <;> rfl

end FiveSpot
