import FiveSpot.Capacity.Actions

/-!
# The status of a ScheduledCapacity

The status a reconcile computes, sent as a merge patch only when it differs from the stored one. The
patch names every member, so what it leaves behind does not depend on what was stored.
-/

namespace FiveSpot.Capacity

set_option autoImplicit false

open Effects Effects.Prog

def reasonNoHostGovernanceConflict : String := "SoleGovernor"

def conditionTypeSpotScheduleResolved : String := "SpotScheduleResolved"
def conditionTypeTargetResolved : String := "TargetResolved"
def conditionTypeCapacityWritten : String := "CapacityWritten"
def conditionTypeHandbackComplete : String := "HandbackComplete"
def conditionTypeHostGovernanceConflict : String := "HostGovernanceConflict"

def mergeConditionTimestamps (computed previous : List Condition) : List Condition :=
  computed.map fun condition =>
    match previous.find? fun stored => stored.type == condition.type with
    | some stored =>
        if stored.status == condition.status then
          { condition with lastTransitionTime := stored.lastTransitionTime }
        else condition
    | none => condition

structure ObservedState where
  written : Option Int
  observedDrained : Option Int
  targetRef : Option ObjectReference
  now : Instant

def verdictMessage : SpotScheduleVerdict → String
  | .active _ => "provider reports active"
  | .inactive _ => "provider reports inactive"
  | .unresolved _ message => message

def spotScheduleTransitionTime (capacity : ScheduledCapacity) (verdict : SpotScheduleVerdict)
    (now : Instant) : Option Timestamp :=
  if capacity.lastKnownActive = verdict.isActive? then
    capacity.spotSchedule.bind fun s => s.lastTransitionTime
  else some (.at now)

def lastWriteTime (capacity : ScheduledCapacity) (written : Option Int) (now : Instant) :
    Option Timestamp :=
  if written ≠ capacity.writtenValue ∧ written.isSome then some (.at now)
  else capacity.status.bind fun s => s.lastWriteTime

/-- Every member is present, as an explicit null where there is no value. -/
def buildStatusValue (capacity : ScheduledCapacity) (decision : CapacityDecision)
    (observed : ObservedState) (conditions : List Condition) (verdict : SpotScheduleVerdict) :
    StatusPatch where
  phase := decision.phase
  message := decision.message
  ready := decision.ready
  conditions := conditions
  observedGeneration := .orNull capacity.generation
  writtenValue := .orNull observed.written
  lastWriteTime := .orNull (lastWriteTime capacity observed.written observed.now)
  observedDrainedValue := .orNull observed.observedDrained
  governedNode := .orNull capacity.spec.nodeName
  handbackDeadline := .orNull (decision.handbackDeadline.map Timestamp.at)
  targetRef := .orNull observed.targetRef
  spotSchedule :=
    { resolved := verdict.isResolved
      active := .orNull verdict.isActive?
      reason := verdict.reason
      message := verdictMessage verdict
      providerGeneration := .orNull verdict.providerGeneration
      lastTransitionTime := .orNull (spotScheduleTransitionTime capacity verdict observed.now) }

def targetRefValue (capacity : ScheduledCapacity) (ns : String) (target : TargetResolution) :
    Option ObjectReference :=
  target.object.map fun _ =>
    ⟨capacity.spec.target.apiVersion, capacity.spec.target.kind, capacity.name, some ns⟩

def governanceMessage (capacity : ScheduledCapacity) (conflict : Bool) : String :=
  match capacity.spec.nodeName, conflict with
  | some node, true =>
      "node " ++ node ++ " is also the status.nodeRef of a ScheduledMachine in this namespace; " ++
        "capacity driven to zero and the active value withheld"
  | some node, false => "no ScheduledMachine in this namespace claims node " ++ node
  | none, _ =>
      "spec.nodeName is not set, so overlap with a ScheduledMachine cannot be detected; the " ++
        "one-host-one-governor invariant is documentation only"

def boolStatus (value : Bool) : String := if value then conditionStatusTrue else conditionStatusFalse

def writtenMessage (capacity : ScheduledCapacity) : Option Int → String
  | some value =>
      "spec." ++ capacity.spec.capacity.field ++ " is " ++ toString value ++ " on the owned " ++
        capacity.spec.target.kind
  | none => "nothing has been written to the owned object"

def newCondition (type : String) (status : Bool) (reason message : String) : Reconcile Condition := do
  let now ← call .now
  return .new now type (boolStatus status) reason message

/-- The condition set of `patch_status`, before the stored time stamps are kept. -/
def computeConditions (capacity : ScheduledCapacity) (decision : CapacityDecision)
    (verdict : SpotScheduleVerdict) (target : TargetResolution) (written : Option Int) :
    Reconcile (List Condition) := do
  let ready ← newCondition conditionTypeReady decision.ready decision.reason decision.message
  let resolved ← newCondition conditionTypeSpotScheduleResolved verdict.isResolved verdict.reason
    (verdictMessage verdict)
  let targetResolved ← newCondition conditionTypeTargetResolved target.writable target.reason
    target.message
  let capacityWritten ← newCondition conditionTypeCapacityWritten written.isSome decision.reason
    (writtenMessage capacity written)
  let complete ← newCondition conditionTypeHandbackComplete decision.handbackComplete decision.reason
    decision.message
  let conflict ← newCondition conditionTypeHostGovernanceConflict decision.conflict
    (if decision.conflict then reasonHostGovernanceConflict else reasonNoHostGovernanceConflict)
    (governanceMessage capacity decision.conflict)
  return [ready, resolved, targetResolved, capacityWritten, complete, conflict]

/--
Nothing is sent when the stored status already reads as the new one would. The new one always
deserialises, so the branch for a status that does not is left out.
-/
def patchStatus (ns : String) (capacity : ScheduledCapacity) (decision : CapacityDecision)
    (verdict : SpotScheduleVerdict) (target : TargetResolution)
    (written observedDrained : Option Int) (now : Instant) : Reconcile Unit := do
  let computed ← computeConditions capacity decision verdict target written
  let stored := capacity.status.elim [] fun s => s.conditions
  let observed : ObservedState := ⟨written, observedDrained, targetRefValue capacity ns target, now⟩
  let status := buildStatusValue capacity decision observed
    (mergeConditionTimestamps computed stored) verdict
  if capacity.status = some (status.apply none) then return ()
  else orKube (← call (.patchStatus status))

section Stored

variable (capacity : ScheduledCapacity) (decision : CapacityDecision) (observed : ObservedState)
  (conditions : List Condition) (verdict : SpotScheduleVerdict)

theorem buildStatusValue_apply (old : Option ScheduledCapacityStatus) :
    (buildStatusValue capacity decision observed conditions verdict).apply old =
      (buildStatusValue capacity decision observed conditions verdict).apply none := by
  simp [buildStatusValue, StatusPatch.apply, SpotSchedulePatch.apply]

variable (old : Option ScheduledCapacityStatus)

@[simp] theorem buildStatusValue_writtenValue :
    ((buildStatusValue capacity decision observed conditions verdict).apply old).writtenValue =
      observed.written := by
  simp [buildStatusValue, StatusPatch.apply]

@[simp] theorem buildStatusValue_handbackDeadline :
    ((buildStatusValue capacity decision observed conditions verdict).apply old).handbackDeadline =
      decision.handbackDeadline.map Timestamp.at := by
  simp [buildStatusValue, StatusPatch.apply]

@[simp] theorem buildStatusValue_active :
    ((buildStatusValue capacity decision observed conditions verdict).apply old).spotSchedule.bind
      (fun s => s.active) = verdict.isActive? := by
  simp [buildStatusValue, StatusPatch.apply, SpotSchedulePatch.apply]

end Stored

end FiveSpot.Capacity
