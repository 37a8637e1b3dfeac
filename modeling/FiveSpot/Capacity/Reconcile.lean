import FiveSpot.Capacity.Status
import FiveSpot.Machine.Reconcile

/-!
# The ScheduledCapacity reconciler

`reconcile` of `reconcilers/scheduled_capacity.rs`: observe, decide, write, then report; and the system
made of the reconciler and its surroundings. As for the ScheduledMachine, every reconcile starts on the
resource as it is stored at that moment and not on an older state of a watch cache.
-/

namespace FiveSpot.Capacity

set_option autoImplicit false

open Effects Effects.Prog

def capacityHandbackDeadlineCheckSecs : Nat := 30
def defaultRequeueSecs : Nat := 300

def requeueFor (decision : CapacityDecision) : Action :=
  match decision.phase with
  | .handingBack => .requeue capacityHandbackDeadlineCheckSecs
  | _ => .requeue defaultRequeueSecs

structure Observation where
  now : Instant
  verdict : SpotScheduleVerdict
  target : TargetResolution
  observedDrained : Option Int
  conflict : Bool
  handbackTimeout : Int

def decisionInput (capacity : ScheduledCapacity) (o : Observation) : CapacityDecisionInput where
  enabled := capacity.spec.enabled
  killSwitch := capacity.spec.killSwitch
  activeValue := capacity.spec.capacity.activeValue
  verdict := o.verdict
  lastKnownActive := capacity.lastKnownActive
  lastWritten := capacity.writtenValue
  targetResolved := o.target.writable
  hasDrainSignal := capacity.drainedPath.isSome
  observedDrained := o.observedDrained
  handbackTimeout := o.handbackTimeout
  handbackDeadline := capacity.handbackDeadline.bind parseRfc3339
  conflict := o.conflict
  now := o.now

/-- A provider that cannot be asked is unresolved. -/
def resolveVerdict (ns : String) (capacity : ScheduledCapacity) : Reconcile SpotScheduleVerdict := do
  match ← resolveSpotSchedule (m := Reconcile)
    (fun group version kind => do return (← call (.pinnedKind group version kind)).map fun _ => ())
    (fun ns name => call (.getProvider ns name)) ns capacity.spec.schedule with
  | .ok verdict => return verdict
  | .error e =>
      return .unresolved reasonSpotScheduleProviderNotFound
        ("transient provider resolution failure: " ++ (ReconcilerError.kubeError e).text)

def readDrained (target : TargetResolution) (drainedPath : Option String) : Option Int :=
  match target.object, drainedPath with
  | some object, some path => readI64At object.data path
  | _, _ => none

def observe (ns : String) (capacity : ScheduledCapacity) : Reconcile Observation := do
  let now ← call .now
  let _ ← orPath (validateCapacityField capacity.spec.capacity.field)
  match capacity.drainedPath with
  | some path => let _ ← orPath (validateDrainedPath path)
  | none => pure ()
  let verdict ← resolveVerdict ns capacity
  let target ← resolveTarget ns capacity
  let observedDrained := readDrained target capacity.drainedPath
  let conflict ← detectHostGovernanceConflict ns capacity
  let handbackTimeout ← check (parseHandbackTimeout capacity)
  return { now, verdict, target, observedDrained, conflict, handbackTimeout }

/-- Apply what the decision writes; the value to record is carried forward when it writes nothing. -/
def writeDecided (ns : String) (capacity : ScheduledCapacity) (target : TargetResolution)
    (decision : CapacityDecision) : Reconcile (Option Int) := do
  match decision.write with
  | some value =>
      applyOwnedObject ns capacity target value
      return some value
  | none => return capacity.writtenValue

/-- One reconcile, with what it found out; a standby replica does nothing. -/
def reconcileObserved (capacity : ScheduledCapacity) : Reconcile (Option Observation) := do
  if !(← call .isLeader) then return none
  else
    match capacity.ns with
    | none => throw .unnamespaced
    | some ns =>
        let o ← observe ns capacity
        let decision := decide (decisionInput capacity o)
        let written ← writeDecided ns capacity o.target decision
        patchStatus ns capacity decision o.verdict o.target written o.observedDrained o.now
        return some o

def reconcile (capacity : ScheduledCapacity) : Reconcile Action := do
  match ← reconcileObserved capacity with
  | none => return .awaitChange
  | some o => return requeueFor (decide (decisionInput capacity o))

/-- The reconciler in its surroundings; of each reconcile the trace keeps what it found out. -/
def capacitySystem :
    System Request Response World Answer (Except CapacityError (Option Observation)) where
  exec := World.exec
  program := fun w => (reconcileObserved w.capacity).run
  restart := id

section Sample

/-! A new resource in a cluster where every call is answered, for runs on concrete events. -/

def sampleSpec : ScheduledCapacitySpec where
  schedule := ⟨"spotschedules.5spot.finos.org/v1alpha1", "TimeBasedSchedule", "office-hours"⟩
  enabled := true
  killSwitch := false
  target := ⟨"banlieue.io/v1alpha1", "VirtualMachinePool"⟩
  capacity := ⟨"warmReplicas", 10, by decide⟩
  template := .obj [("maxReplicas", .int 20)]
  handback := some ⟨some "status.claimed", "10m"⟩
  nodeName := some "edge-1"

def sampleProvider (active : Bool) : Json := .obj [("status", .obj [("active", .bool active)])]

def sampleWorld : World where
  capacity := ⟨"slice", some "default", some "uid", some 1, sampleSpec, none⟩
  clock := 0
  leader := true
  served := fun _ _ _ => some "virtualmachinepools"
  provider := some (sampleProvider true)
  access := fun _ _ _ => some true
  object := none
  freshUid := "object-uid"
  machines := []

/-- A reconcile that makes `n` calls at most, all of them answered. -/
def reconcileFor (n : Nat) : List (Event World Answer) := .start :: List.replicate n (.next .ok)

/-- The first reconcile of the sample: the active value is written and recorded. -/
def sampleActive :
    Config Request Response World Answer (Except CapacityError (Option Observation)) :=
  capacitySystem.run (.idle sampleWorld) (reconcileFor 17)

example : sampleActive.world.capacity.writtenValue = some 10 := by
  decide +kernel

def setProvider (active : Bool) (w : World) : World :=
  { w with provider := some (sampleProvider active) }

def contest (w : World) : World :=
  { w with
    machines := [{ Machine.sampleWorld.machine with
      status := some { Machine.ScheduledMachineStatus.default with
        nodeRef := some ⟨"v1", "Node", "edge-1", none⟩ } }] }

end Sample

end FiveSpot.Capacity
