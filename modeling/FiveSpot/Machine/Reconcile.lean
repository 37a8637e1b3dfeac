import FiveSpot.Machine.Projection

/-!
# The ScheduledMachine reconciler

`reconcilers/scheduled_machine.rs`: the guards, the phase handlers and the dispatch between them, and
the system made of the reconciler and its surroundings. Every reconcile of the system starts on the
resource as it is stored at that moment: the watch cache it comes from is taken to be up to date.
-/

namespace FiveSpot.Machine

set_option autoImplicit false

open Effects Effects.Prog

/-- The time of a transition; the clock is read only when there is one. -/
def transitionTime (transitioned : Bool) : Reconcile (Option Timestamp) := do
  if transitioned then
    let now ← call .now
    return some (.at now)
  else return none

/-- `persist_spot_schedule_status`; nothing is sent when the stored status already says the same. -/
def persistSpotScheduleStatus (verdict : SpotScheduleVerdict) (previousActive : Option Bool)
    (current : Option SpotScheduleStatus) : Reconcile Unit := do
  let active := verdict.isActive?.or previousActive
  let transitioned := verdict.isActive?.any fun now => previousActive != some now
  let time ← transitionTime transitioned
  let comparison : SpotScheduleStatus :=
    { resolved := verdict.isResolved
      active := active
      reason := some verdict.reason
      message := verdict.unresolvedMessage
      providerGeneration := verdict.providerGeneration
      lastTransitionTime := time.or (current.bind fun c => c.lastTransitionTime) }
  if current = some comparison then return ()
  else
    let patch : SpotSchedulePatch :=
      { resolved := verdict.isResolved
        reason := verdict.reason
        active := active
        message := verdict.unresolvedMessage
        providerGeneration := verdict.providerGeneration
        lastTransitionTime := time }
    orKubeError (← call (.patchStatus { spotSchedule := some patch }))

def checkEmergencyReclaim (settings : Settings) (resource : ScheduledMachine) :
    Reconcile (Option Action) := do
  match resource.nodeRef with
  | none => return none
  | some nodeRef =>
      if nodeRef.name.isEmpty then return none
      else
        let client ← check (← call .resolveChild)
        match ← call (.getNode client nodeRef.name) with
        | .error e => if e.isNotFound then return none else throw (.kubeError e)
        | .ok node =>
            match nodeReclaimRequest node with
            | none => return none
            | some request =>
                return some (← handleEmergencyRemove settings resource nodeRef.name request)

def moveTo (fromPhase phase : Phase) (reason message : String) (inSchedule : Bool)
    (requeueSecs : Nat) : Reconcile Action := do
  updatePhase (some fromPhase) phase (some reason) (some message) inSchedule
  return .requeue requeueSecs

def handleEmergencyRemovePhase (resource : ScheduledMachine) : Reconcile Action := do
  let _ ← namespaceOf resource
  moveTo .emergencyRemove .disabled reasonScheduleDisabled emergencyDisabledMessage false
    timerRequeueSecs

def handlePendingPhase (settings : Settings) (resource : ScheduledMachine)
    (shouldBeActive : Bool) : Reconcile Action := do
  let ns ← namespaceOf resource
  if !resource.spec.enabled then
    moveTo .pending .disabled reasonScheduleDisabled "Schedule is disabled" false timerRequeueSecs
  else if !shouldBeActive then
    moveTo .pending .inactive reasonScheduleInactive "Outside scheduled time window" false
      timerRequeueSecs
  else
    match ← attempt (addMachineToCluster settings resource ns) with
    | .error e =>
        moveTo .pending .error "MachineCreationFailed" ("Failed to create CAPI Machine: " ++ e.text)
          true errorRequeueSecs
    | .ok () =>
        moveTo .pending .active reasonMachineCreated "CAPI Machine created successfully" true
          timerRequeueSecs

/-- `Active → ShuttingDown`. -/
def startShutdown (reason message : String) : Reconcile Action := do
  updatePhaseWithGracePeriod (some .active) .shuttingDown (some reason) (some message) false
  return .requeue timerRequeueSecs

/-- What an active machine gets on each reconcile; no failure in it is fatal. -/
def enrichActive (resource : ScheduledMachine) (ns : String) : Reconcile Unit := do
  match ← attempt (fetchCapiMachine ns resource.name) with
  | .ok (some machine) =>
      let (providerId, nodeRef) := extractMachineRefs machine
      let _ ← attempt (patchMachineRefsStatus providerId nodeRef)
      provisionReclaimAgentBestEffort resource nodeRef
      reconcileNodeTaintsBestEffort resource nodeRef
      provisionKataConfigBestEffort resource nodeRef
  | _ => return ()

def handleActivePhase (resource : ScheduledMachine) (shouldBeActive : Bool) :
    Reconcile Action := do
  let ns ← namespaceOf resource
  if !resource.spec.enabled then
    startShutdown reasonScheduleDisabled "Schedule disabled - starting graceful shutdown"
  else if !shouldBeActive then
    startShutdown reasonGracePeriod "Outside schedule - starting graceful shutdown"
  else
    enrichActive resource ns
    return .requeue timerRequeueSecs

/-- Step 1 of the shutdown: a drain that fails does not stop the removal. -/
def drainBeforeRemoval (resource : ScheduledMachine) (ns : String) : Reconcile Unit := do
  match ← getNodeFromMachine ns resource.name with
  | none => return ()
  | some nodeName =>
      let timeout ← check (parseDuration resource.spec.nodeDrainTimeout)
      let client ← check (← call .resolveChild)
      let _ ← attempt (drainNodeWithTimeout client nodeName timeout)
      return ()

def handleShuttingDownPhase (settings : Settings) (resource : ScheduledMachine) :
    Reconcile Action := do
  let ns ← namespaceOf resource
  if ← checkGracePeriodElapsed resource then
    call (.info .gracePeriodElapsed)
    drainBeforeRemoval resource ns
    match ← attempt (removeMachineFromCluster settings resource ns) with
    | .error e =>
        moveTo .shuttingDown .error "MachineDeletionFailed"
          ("Failed to delete CAPI Machine: " ++ e.text) false errorRequeueSecs
    | .ok () =>
        moveTo .shuttingDown .inactive reasonMachineDeleted "Machine removed from cluster" false
          timerRequeueSecs
  else return .requeue timerRequeueSecs

def handleInactivePhase (resource : ScheduledMachine) (shouldBeActive : Bool) :
    Reconcile Action := do
  let _ ← namespaceOf resource
  if !resource.spec.enabled then return .requeue timerRequeueSecs
  else if !shouldBeActive then return .requeue timerRequeueSecs
  else
    moveTo .inactive .pending reasonScheduleActive
      "Schedule became active - initiating machine creation" true timerRequeueSecs

def handleDisabledPhase (resource : ScheduledMachine) : Reconcile Action := do
  let _ ← namespaceOf resource
  if resource.spec.enabled then
    moveTo .disabled .pending reasonScheduleActive "Schedule re-enabled" false timerRequeueSecs
  else return .requeue timerRequeueSecs

def handleTerminatedPhase : Reconcile Action := return .requeue timerRequeueSecs

def handleErrorPhase (resource : ScheduledMachine) : Reconcile Action := do
  let _ ← namespaceOf resource
  return .requeue errorRequeueSecs

/-- The match on the phase; a missing or unknown phase is treated as pending. -/
def dispatchPhase (settings : Settings) (resource : ScheduledMachine) (shouldBeActive : Bool) :
    Reconcile Action :=
  match resource.phase with
  | some .active => handleActivePhase resource shouldBeActive
  | some .shuttingDown => handleShuttingDownPhase settings resource
  | some .inactive => handleInactivePhase resource shouldBeActive
  | some .disabled => handleDisabledPhase resource
  | some .terminated => handleTerminatedPhase
  | some .emergencyRemove => handleEmergencyRemovePhase resource
  | some .error => handleErrorPhase resource
  | _ => handlePendingPhase settings resource shouldBeActive

def resolveSchedule (ns : String) (reference : SpotScheduleRef) : Reconcile SpotScheduleVerdict := do
  orKubeError (← resolveSpotSchedule (m := Reconcile)
    (fun group version kind => call (.pinnedKind group version kind))
    (fun ns name => call (.getProvider ns name)) ns reference)

/-- From the schedule to the phase handler. -/
def followSchedule (settings : Settings) (resource : ScheduledMachine) (ns : String) :
    Reconcile Action := do
  let lastKnown := resource.lastKnownSpotActive
  let verdict ← resolveSchedule ns resource.spec.schedule
  persistSpotScheduleStatus verdict lastKnown resource.spotSchedule
  let shouldBeActive := composeShouldBeActive verdict lastKnown
  call (.info (.scheduleEvaluated shouldBeActive))
  dispatchPhase settings resource shouldBeActive

def reconcileInner (settings : Settings) (resource : ScheduledMachine) : Reconcile Action := do
  let ns ← namespaceOf resource
  check (validateClusterName resource.spec.clusterName)
  check (validateKillIfCommands resource.spec.killIfCommands)
  check (validateScheduleRef resource.spec.schedule)
  if resource.spec.killSwitch then handleKillSwitch settings resource
  else
    match ← checkEmergencyReclaim settings resource with
    | some action => return action
    | none => followSchedule settings resource ns

def reconcileGuarded (settings : Settings) (resource : ScheduledMachine) (ns : String) :
    Reconcile Action := do
  if !(← call .isLeader) then return .awaitChange
  else if !shouldProcessResource resource.name ns resource.spec.priority settings.instanceCount
      settings.instanceId then return .awaitChange
  else if resource.deletionTimestamp.isSome then handleDeletion settings resource
  else if !hasFinalizer resource then addFinalizer resource
  else reconcileInner settings resource

def reconcileScheduledMachine (settings : Settings) (resource : ScheduledMachine) :
    Reconcile Action := do
  let ns ← namespaceOf resource
  reconcileGuarded settings resource ns

/-- The reconciler in its surroundings; a new process has forgotten the reclaims it saw. -/
def machineSystem : System Request Response World Answer (Except ReconcilerError Action) where
  exec := World.exec
  program := fun w => (reconcileScheduledMachine w.settings w.machine).run
  restart := fun w => { w with recentReclaims := [] }

section Sample

/-! A new resource in a cluster where every call is answered, for runs on concrete events. -/

def sampleSpec : ScheduledMachineSpec where
  schedule := ⟨"spotschedules.5spot.finos.org/v1alpha1", "TimeBasedSchedule", "office-hours"⟩
  enabled := true
  clusterName := "edge"
  bootstrapSpec := ⟨.obj [("apiVersion", .str "bootstrap.cluster.x-k8s.io/v1beta1"),
    ("kind", .str "K0sWorkerConfig"), ("spec", .obj [])]⟩
  infrastructureSpec := ⟨.obj [("apiVersion", .str "infrastructure.cluster.x-k8s.io/v1beta1"),
    ("kind", .str "RemoteMachine"), ("spec", .obj [])]⟩
  machineTemplate := none
  priority := 50
  gracefulShutdownTimeout := "5m"
  nodeDrainTimeout := "5m"
  killSwitch := false
  nodeTaints := []
  killIfCommands := none
  kata := none

def sampleProvider (active : Bool) : Json := .obj [("status", .obj [("active", .bool active)])]

def sampleWorld : World where
  settings := ⟨0, 1, true, "v1beta1", by decide⟩
  machine := ⟨"spot", some "default", some "uid", none, none, sampleSpec, none⟩
  clock := 0
  monotonic := 0
  leader := true
  timerFired := false
  providerInstalled := true
  provider := some (sampleProvider true)
  child := .ok .management
  access := fun _ _ => ⟨true, none⟩
  objects := fun _ => none
  nodes := fun _ _ => none
  pods := fun _ _ => []
  kataSources := fun _ _ _ _ => false
  namespaces := fun _ _ => false
  recentReclaims := []

def closeSample (w : World) : World := { w with provider := some (sampleProvider false) }

def disableSample (w : World) : World :=
  { w with machine := { w.machine with spec := { w.machine.spec with enabled := false } } }

def enableSample (w : World) : World :=
  { w with machine := { w.machine with spec := { w.machine.spec with enabled := true } } }

def killSample (w : World) : World :=
  { w with machine := { w.machine with spec := { w.machine.spec with killSwitch := true } } }

def joinSample (w : World) : World :=
  { w with
    objects := fun k =>
      if k = machineKey "default" "spot" then
        some ⟨.obj [("status", .obj [("nodeRef", .obj [("name", .str "node-1")])])], false⟩
      else w.objects k
    nodes := fun _ _ => some ⟨[], [], false, [], true⟩ }

def requestSample (w : World) : World :=
  { w with nodes := fun _ _ => some ⟨[], [( reclaimRequestedAnnotation, "true")], false, [], true⟩ }

def goneSample (w : World) : World := { w with objects := fun _ => none }

def reconcileFor (n : Nat) : List (Event World Answer) := .start :: List.replicate n (.next .ok)

def sampleAdded : Config Request Response World Answer (Except ReconcilerError Action) :=
  machineSystem.run (.idle sampleWorld) (reconcileFor 2 ++ reconcileFor 20)

example : sampleAdded.world.machine.phase = some .active := by
  decide +kernel

def sampleJoined : Config Request Response World Answer (Except ReconcilerError Action) :=
  machineSystem.run sampleAdded (.move (joinSample sampleAdded.world) :: reconcileFor 12)

end Sample

end FiveSpot.Machine
