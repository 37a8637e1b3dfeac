import FiveSpot.Capacity.Path
import FiveSpot.SpotSchedule

/-!
# The ScheduledCapacity resource

The fields of `crd.rs` that the capacity reconciler reads or writes, and the merge patch it sends to
the status.
-/

namespace FiveSpot.Capacity

set_option autoImplicit false

inductive Phase where
  | pending
  | active
  | handingBack
  | handbackTimedOut
  | inactive
  | disabled
  | terminated
  | error
  /-- A stored text that is none of the phases the controller writes. -/
  | other (text : String)
  deriving DecidableEq

structure CapacityTarget where
  apiVersion : String
  kind : String

/-- The field to scale, relative to the spec of the owned object, and its value while active. -/
structure CapacityWrite where
  field : String
  activeValue : Int
  fits : Json.FitsI64 activeValue

structure HandbackPolicy where
  drainedPath : Option String
  timeout : String

structure ScheduledCapacitySpec where
  schedule : SpotScheduleRef
  enabled : Bool
  killSwitch : Bool
  target : CapacityTarget
  capacity : CapacityWrite
  template : Json
  handback : Option HandbackPolicy
  nodeName : Option String

structure ObjectReference where
  apiVersion : String
  kind : String
  name : String
  ns : Option String
  deriving DecidableEq

structure ScheduledCapacityStatus where
  phase : Option Phase
  message : Option String
  writtenValue : Option Int
  lastWriteTime : Option Timestamp
  targetRef : Option ObjectReference
  governedNode : Option String
  observedDrainedValue : Option Int
  handbackDeadline : Option Timestamp
  conditions : List Condition
  observedGeneration : Option Int
  ready : Bool
  spotSchedule : Option SpotScheduleStatus
  deriving DecidableEq

structure ScheduledCapacity where
  name : String
  ns : Option String
  uid : Option String
  generation : Option Int
  spec : ScheduledCapacitySpec
  status : Option ScheduledCapacityStatus

namespace ScheduledCapacity

variable (c : ScheduledCapacity)

def spotSchedule : Option SpotScheduleStatus := c.status.bind fun s => s.spotSchedule

/-- `status.spotSchedule.active`, the value held while the provider is unresolved. -/
def lastKnownActive : Option Bool := c.spotSchedule.bind fun s => s.active

def writtenValue : Option Int := c.status.bind fun s => s.writtenValue

def handbackDeadline : Option Timestamp := c.status.bind fun s => s.handbackDeadline

def drainedPath : Option String := c.spec.handback.bind fun h => h.drainedPath

end ScheduledCapacity

/-- `status.spotSchedule` in a patch; the members without a value are sent as null. -/
structure SpotSchedulePatch where
  resolved : Bool
  active : MergeField Bool
  reason : String
  message : String
  providerGeneration : MergeField Int
  lastTransitionTime : MergeField Timestamp

def SpotSchedulePatch.apply (p : SpotSchedulePatch) (old : Option SpotScheduleStatus) :
    SpotScheduleStatus where
  resolved := p.resolved
  active := p.active.apply (old.bind fun s => s.active)
  reason := some p.reason
  message := some p.message
  providerGeneration := p.providerGeneration.apply (old.bind fun s => s.providerGeneration)
  lastTransitionTime := p.lastTransitionTime.apply (old.bind fun s => s.lastTransitionTime)

/-- The body of a merge patch to the status, as `build_status_value` lays it out. -/
structure StatusPatch where
  phase : Phase
  message : String
  ready : Bool
  conditions : List Condition
  observedGeneration : MergeField Int
  writtenValue : MergeField Int
  lastWriteTime : MergeField Timestamp
  observedDrainedValue : MergeField Int
  governedNode : MergeField String
  handbackDeadline : MergeField Timestamp
  targetRef : MergeField ObjectReference
  spotSchedule : SpotSchedulePatch

/--
The status stored after a patch. The `uid` the patch has in `targetRef` is not in the schema of the
stored reference and is dropped by the server, so it is left out here.
-/
def StatusPatch.apply (p : StatusPatch) (old : Option ScheduledCapacityStatus) :
    ScheduledCapacityStatus where
  phase := some p.phase
  message := some p.message
  ready := p.ready
  conditions := p.conditions
  observedGeneration := p.observedGeneration.apply (old.bind fun s => s.observedGeneration)
  writtenValue := p.writtenValue.apply (old.bind fun s => s.writtenValue)
  lastWriteTime := p.lastWriteTime.apply (old.bind fun s => s.lastWriteTime)
  observedDrainedValue := p.observedDrainedValue.apply (old.bind fun s => s.observedDrainedValue)
  governedNode := p.governedNode.apply (old.bind fun s => s.governedNode)
  handbackDeadline := p.handbackDeadline.apply (old.bind fun s => s.handbackDeadline)
  targetRef := p.targetRef.apply (old.bind fun s => s.targetRef)
  spotSchedule := some (p.spotSchedule.apply (old.bind fun s => s.spotSchedule))

end FiveSpot.Capacity
