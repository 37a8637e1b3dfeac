import FiveSpot.SpotSchedule

/-!
# The ScheduledMachine resource

The fields of `crd.rs` that the reconciler reads or writes, with the accessors it uses on embedded
resources and the merge patches it sends to the status.
-/

namespace FiveSpot.Machine

set_option autoImplicit false

inductive Phase where
  | pending
  | active
  | shuttingDown
  | inactive
  | disabled
  | terminated
  | error
  | emergencyRemove
  /-- A stored text that is none of the phases the controller writes. -/
  | other (text : String)
  deriving DecidableEq

def Phase.text : Phase → String
  | .pending => "Pending"
  | .active => "Active"
  | .shuttingDown => "ShuttingDown"
  | .inactive => "Inactive"
  | .disabled => "Disabled"
  | .terminated => "Terminated"
  | .error => "Error"
  | .emergencyRemove => "EmergencyRemove"
  | .other text => text

def reasonReconcileSucceeded : String := "ReconcileSucceeded"
def reasonScheduleActive : String := "ScheduleActive"
def reasonScheduleInactive : String := "ScheduleInactive"
def reasonMachineCreated : String := "MachineCreated"
def reasonMachineDeleted : String := "MachineDeleted"
def reasonKillSwitch : String := "KillSwitchActivated"
def reasonGracePeriod : String := "GracePeriodActive"
def reasonScheduleDisabled : String := "ScheduleDisabled"
def reasonEmergencyReclaim : String := "EmergencyReclaim"

def finalizerScheduledMachine : String := "5spot.finos.org/scheduledmachine"

def errorRequeueSecs : Nat := 30
def timerRequeueSecs : Nat := 60

abbrev StringMap := List (String × String)

/-- `BTreeMap::insert`: the entry for `key` is replaced, or a new one is added. -/
def StringMap.insert (key value : String) : StringMap → StringMap
  | [] => [(key, value)]
  | (k, v) :: rest => if k = key then (key, value) :: rest else (k, v) :: insert key value rest

def StringMap.toJson (m : StringMap) : Json := .obj (m.map fun (k, v) => (k, .str v))

theorem StringMap.lookup_insert (key value k : String) (m : StringMap) :
    (insert key value m).lookup k = if k = key then some value else m.lookup k := by
  have hother : ∀ k', k ≠ k' → (k == k') = false := fun k' h => beq_false_of_ne h
  induction m with
  | nil => by_cases hk : k = key <;> simp [insert, List.lookup_cons, hk, hother]
  | cons entry rest ih =>
    obtain ⟨k', v⟩ := entry
    simp only [insert]
    split
    · rename_i heq
      subst heq
      by_cases hk : k = k' <;> simp [List.lookup_cons, hk, hother]
    · rename_i hne
      rw [List.lookup_cons, ih, List.lookup_cons]
      by_cases hk : k = k'
      · subst hk
        simp [hne]
      · simp [hother k' hk]

@[simp] theorem StringMap.get?_toJson (m : StringMap) (key : String) :
    m.toJson.get? key = (m.lookup key).map .str := by
  simp only [toJson, Json.get?]
  induction m with
  | nil => rfl
  | cons entry rest ih =>
    obtain ⟨k, v⟩ := entry
    rw [List.map_cons, List.lookup_cons, List.lookup_cons]
    cases key == k
    · exact ih
    · rfl

structure EmbeddedResource where
  inner : Json

theorem StringMap.lookup_filter_ne {m : StringMap} {key k : String} :
    (m.filter fun entry => entry.1 != key).lookup k = if k = key then none else m.lookup k := by
  induction m with
  | nil => simp
  | cons entry rest ih =>
    obtain ⟨k', v⟩ := entry
    rw [List.filter_cons]
    split
    · rename_i hkeep
      have hne : k' ≠ key := by simpa using hkeep
      rw [List.lookup_cons, List.lookup_cons, ih]
      by_cases hk : k = k'
      · subst hk
        simp [hne]
      · simp [beq_false_of_ne hk]
    · rename_i hdrop
      have heq : k' = key := by simpa using hdrop
      subst heq
      rw [ih, List.lookup_cons]
      by_cases hk : k = k'
      · simp [hk]
      · simp [hk, beq_false_of_ne hk]

namespace EmbeddedResource

variable (r : EmbeddedResource)

def apiVersion : Option String := (r.inner.get? "apiVersion").bind Json.asStr?
def kind : Option String := (r.inner.get? "kind").bind Json.asStr?
def spec : Option Json := r.inner.get? "spec"
def metadata (key : String) : Option Json := (r.inner.get? "metadata").bind (Json.get? key)
def metadataNamespace : Option String := (r.metadata "namespace").bind Json.asStr?
def metadataName : Option String := (r.metadata "name").bind Json.asStr?
def metadataLabels : StringMap := Json.stringMap (r.metadata "labels")
def metadataAnnotations : StringMap := Json.stringMap (r.metadata "annotations")

end EmbeddedResource

inductive TaintEffect where
  | noSchedule
  | preferNoSchedule
  | noExecute
  deriving DecidableEq

def TaintEffect.text : TaintEffect → String
  | .noSchedule => "NoSchedule"
  | .preferNoSchedule => "PreferNoSchedule"
  | .noExecute => "NoExecute"

structure NodeTaint where
  key : String
  value : Option String
  effect : TaintEffect
  deriving DecidableEq

structure NodeRef where
  apiVersion : String
  kind : String
  name : String
  uid : Option String
  deriving DecidableEq

inductive KataConfigSourceKind where
  | configMap
  | secret
  deriving DecidableEq

def KataConfigSourceKind.text : KataConfigSourceKind → String
  | .configMap => "ConfigMap"
  | .secret => "Secret"

structure KataConfig where
  kind : KataConfigSourceKind
  name : String
  ns : String
  key : String
  restartService : String

structure MachineTemplateSpec where
  labels : StringMap
  annotations : StringMap

structure ScheduledMachineSpec where
  schedule : SpotScheduleRef
  enabled : Bool
  clusterName : String
  bootstrapSpec : EmbeddedResource
  infrastructureSpec : EmbeddedResource
  machineTemplate : Option MachineTemplateSpec
  priority : Nat
  gracefulShutdownTimeout : String
  nodeDrainTimeout : String
  killSwitch : Bool
  nodeTaints : List NodeTaint
  killIfCommands : Option (List String)
  kata : Option KataConfig

structure ScheduledMachineStatus where
  phase : Option Phase
  message : Option String
  nodeRef : Option NodeRef
  providerId : Option String
  conditions : List Condition
  inSchedule : Bool
  ready : Bool
  appliedNodeTaints : List NodeTaint
  spotSchedule : Option SpotScheduleStatus

/-- `ScheduledMachineStatus::default`. -/
def ScheduledMachineStatus.default : ScheduledMachineStatus where
  phase := none
  message := none
  nodeRef := none
  providerId := none
  conditions := []
  inSchedule := false
  ready := false
  appliedNodeTaints := []
  spotSchedule := none

structure ScheduledMachine where
  name : String
  ns : Option String
  uid : Option String
  finalizers : Option (List String)
  deletionTimestamp : Option Timestamp
  spec : ScheduledMachineSpec
  status : Option ScheduledMachineStatus

namespace ScheduledMachine

variable (m : ScheduledMachine)

def phase : Option Phase := m.status.bind fun s => s.phase

def nodeRef : Option NodeRef := m.status.bind fun s => s.nodeRef

def spotSchedule : Option SpotScheduleStatus := m.status.bind fun s => s.spotSchedule

/-- `status.spotSchedule.active`, the value held while the provider is unresolved. -/
def lastKnownSpotActive : Option Bool := m.spotSchedule.bind fun s => s.active

end ScheduledMachine

/-- The members of `status.spotSchedule` in a patch; an omitted one is left as it is. -/
structure SpotSchedulePatch where
  resolved : Bool
  reason : String
  active : Option Bool
  message : Option String
  providerGeneration : Option Int
  lastTransitionTime : Option Timestamp
  deriving DecidableEq

def SpotSchedulePatch.apply (p : SpotSchedulePatch) (old : Option SpotScheduleStatus) :
    SpotScheduleStatus where
  resolved := p.resolved
  reason := some p.reason
  active := p.active.or (old.bind fun s => s.active)
  message := p.message.or (old.bind fun s => s.message)
  providerGeneration := p.providerGeneration.or (old.bind fun s => s.providerGeneration)
  lastTransitionTime := p.lastTransitionTime.or (old.bind fun s => s.lastTransitionTime)

/-- A merged node reference keeps the stored UID when the patch carries none. -/
def NodeRef.merge (new : NodeRef) (old : Option NodeRef) : NodeRef :=
  { new with uid := new.uid.or (old.bind fun r => r.uid) }

/-- The members of a merge patch to the status; `none` leaves a member out of the patch. -/
structure StatusPatch where
  phase : Option Phase := none
  message : Option String := none
  conditions : Option (List Condition) := none
  inSchedule : Option Bool := none
  ready : Option Bool := none
  nodeRef : Option NodeRef := none
  providerId : Option String := none
  appliedNodeTaints : Option (List NodeTaint) := none
  spotSchedule : Option SpotSchedulePatch := none

def StatusPatch.apply (p : StatusPatch) (old : Option ScheduledMachineStatus) :
    ScheduledMachineStatus :=
  let s := old.getD .default
  { phase := p.phase.or s.phase
    message := p.message.or s.message
    nodeRef := (p.nodeRef.map fun r => r.merge s.nodeRef).or s.nodeRef
    providerId := p.providerId.or s.providerId
    conditions := p.conditions.getD s.conditions
    inSchedule := p.inSchedule.getD s.inSchedule
    ready := p.ready.getD s.ready
    appliedNodeTaints := p.appliedNodeTaints.getD s.appliedNodeTaints
    spotSchedule := (p.spotSchedule.map fun q => q.apply s.spotSchedule).or s.spotSchedule }

@[simp] theorem StatusPatch.apply_phase (p : StatusPatch) (old : Option ScheduledMachineStatus) :
    (p.apply old).phase = p.phase.or (old.bind fun s => s.phase) := by
  cases old <;> rfl

@[simp] theorem StatusPatch.apply_spotSchedule (p : StatusPatch)
    (old : Option ScheduledMachineStatus) :
    (p.apply old).spotSchedule =
      (p.spotSchedule.map fun q => q.apply (old.bind fun s => s.spotSchedule)).or
        (old.bind fun s => s.spotSchedule) := by
  cases old <;> rfl

@[simp] theorem StatusPatch.apply_conditions (p : StatusPatch) (old : Option ScheduledMachineStatus) :
    (p.apply old).conditions = p.conditions.getD (old.elim [] fun s => s.conditions) := by
  cases old <;> rfl

end FiveSpot.Machine
