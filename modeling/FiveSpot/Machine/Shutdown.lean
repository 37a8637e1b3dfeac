import FiveSpot.Machine.Actions

/-!
# Taking a machine away

The node drain, the cleanup behind the finalizer, the kill switch and the emergency reclaim.
-/

namespace FiveSpot.Machine

set_option autoImplicit false

open Effects Effects.Prog

def stringAt (key : String) (json : Json) : Option String := (json.get? key).bind Json.asStr?

/-- `extract_machine_refs`; only the name of a node reference is required. -/
def extractMachineRefs (machine : Json) : Option String × Option NodeRef :=
  let providerId := (machine.get? "spec").bind (stringAt "providerID")
  let nodeRef := ((machine.get? "status").bind (Json.get? "nodeRef")).bind fun nr =>
    (stringAt "name" nr).map fun name =>
      { apiVersion := (stringAt "apiVersion" nr).getD "v1"
        kind := (stringAt "kind" nr).getD "Node"
        name := name
        uid := stringAt "uid" nr : NodeRef }
  (providerId, nodeRef)

def fetchCapiMachine (ns name : String) : Reconcile (Option Json) := do
  match ← call (.get (machineKey ns name)) with
  | .ok machine => return some machine
  | .error e =>
      if e.isNotFound then return none
      else throw (.capiError ("Failed to get Machine " ++ name ++ ": " ++ e.text))

def patchMachineRefsStatus (providerId : Option String) (nodeRef : Option NodeRef) :
    Reconcile Unit := do
  if providerId.isNone && nodeRef.isNone then return ()
  else
    orKubeError (← call (.patchStatus { providerId := providerId, nodeRef := nodeRef }))

def getNodeFromMachine (ns name : String) : Reconcile (Option String) := do
  match ← fetchCapiMachine ns name with
  | none => return none
  | some machine => return (extractMachineRefs machine).2.map fun r => r.name

def cordonNode (client : Client) (node : String) : Reconcile Unit := do
  orCapiError ("Failed to cordon node " ++ node)
    (← call (.patchNode client node { unschedulable := some true }))

def shouldEvictPod (pod : Pod) : Bool :=
  !(pod.phase == some "Succeeded" || pod.phase == some "Failed") &&
    !pod.ownerKinds.contains "DaemonSet"

def evictPod (client : Client) (podName podNs node : String) : Reconcile Unit := do
  match ← call (.deletePod client podNs podName) with
  | .ok () => return ()
  | .error e =>
      if e.isNotFound then return ()
      else if e.isTooManyRequests then
        throw (.capiError ("Pod " ++ podName ++ " eviction blocked by PodDisruptionBudget " ++
          "(HTTP 429) on node " ++ node))
      else
        throw (.capiError
          ("Failed to evict pod " ++ podName ++ " from node " ++ node ++ ": " ++ e.text))

/-- The eviction loop; the time spent is looked at before each pod. -/
def evictPods (client : Client) (node : String) (timeout : Nat) (start : Instant) :
    List Pod → Reconcile Unit
  | [] => return ()
  | pod :: pods => do
      let now ← call .instant
      if timeout * nanosPerSecond ≤ max 0 (now - start) then
        throw (.capiError ("Node drain timeout exceeded for " ++ node))
      else
        evictPod client (pod.name.getD "unknown") (pod.ns.getD "default") node
        evictPods client node timeout start pods

def drainNodeWithTimeout (client : Client) (node : String) (timeout : Nat) : Reconcile Unit := do
  cordonNode client node
  let pods ← orCapiError ("Failed to list pods on node " ++ node) (← call (.listPods client node))
  match pods.filter shouldEvictPod with
  | [] => return ()
  | pods =>
      let start ← call .instant
      evictPods client node timeout start pods

inductive CleanupOutcome where
  | completed
  | failed (e : ReconcilerError)
  | timedOut

/--
`tokio::time::timeout`: the timer is looked at after each call, and when it has fired the program is
dropped together with the response it was waiting for.
-/
def pollTimer {α : Type} : Prog Request Response α → Prog Request Response (Option α)
  | .pure a => .pure (some a)
  | .call r k => .call r fun x => .call .timerFired fun fired =>
      if fired then .pure none else pollTimer (k x)

def runCleanupWithTimeout (cleanup : Reconcile Unit) : Reconcile CleanupOutcome := do
  match ← ExceptT.lift (pollTimer cleanup.run) with
  | some (.ok ()) => return .completed
  | some (.error e) => return .failed e
  | none => return .timedOut

def finalizerCleanupTimeoutSecs : Nat := 600

def buildFinalizerTimeoutEvent (timeoutSecs : Nat) : KubeEvent where
  warning := true
  reason := "FinalizerCleanupTimedOut"
  note := some ("Finalizer cleanup exceeded " ++ toString timeoutSecs ++ "s timeout. The finalizer " ++
    "was force-removed to unblock namespace deletion. Operators MUST manually verify that the CAPI " ++
    "Machine and its bootstrap/infrastructure resources have been cleaned up — orphan resources are " ++
    "possible. See the troubleshooting docs ('Orphan resources after finalizer timeout') for the " ++
    "runbook.")
  action := "FinalizerCleanupTimedOut"

/-- The phases in which the kill switch and the finalizer take the machine away. -/
def isRunning (phase : Option Phase) : Bool := phase == some .active || phase == some .shuttingDown

def removeFinalizer (resource : ScheduledMachine) : Reconcile Action := do
  let finalizers := (resource.finalizers.getD []).filter fun f => f != finalizerScheduledMachine
  orKubeError (← call (.patchFinalizers finalizers))
  return .awaitChange

def handleDeletion (settings : Settings) (resource : ScheduledMachine) : Reconcile Action := do
  let ns ← namespaceOf resource
  if isRunning resource.phase then
    match ← runCleanupWithTimeout (removeMachineFromCluster settings resource ns) with
    | .completed => removeFinalizer resource
    | .failed e => throw e
    | .timedOut =>
        publishBestEffort (buildFinalizerTimeoutEvent finalizerCleanupTimeoutSecs)
        if settings.forceFinalizerOnTimeout then removeFinalizer resource
        else
          throw (.timeoutError ("Finalizer cleanup timed out after " ++
            toString finalizerCleanupTimeoutSecs ++ "s for " ++ resource.name))
  else removeFinalizer resource

def recordTerminated (resource : ScheduledMachine) : Reconcile Action := do
  updatePhase resource.phase .terminated (some reasonKillSwitch)
    (some "Machine terminated due to kill switch") false
  return .requeue timerRequeueSecs

def handleKillSwitch (settings : Settings) (resource : ScheduledMachine) : Reconcile Action := do
  let ns ← namespaceOf resource
  if resource.phase == some .terminated then return .requeue timerRequeueSecs
  else if isRunning resource.phase then
    removeMachineFromCluster settings resource ns
    recordTerminated resource
  else recordTerminated resource

def reclaimRequestedAnnotation : String := "5spot.finos.org/reclaim-requested"
def reclaimReasonAnnotation : String := "5spot.finos.org/reclaim-reason"
def reclaimRequestedAtAnnotation : String := "5spot.finos.org/reclaim-requested-at"
def reclaimRequestedValue : String := "true"

structure ReclaimRequest where
  reason : Option String
  requestedAt : Option String
  deriving DecidableEq

def nodeReclaimRequest (node : Node) : Option ReclaimRequest :=
  if node.annotations.lookup reclaimRequestedAnnotation == some reclaimRequestedValue then
    some ⟨node.annotations.lookup reclaimReasonAnnotation,
      node.annotations.lookup reclaimRequestedAtAnnotation⟩
  else none

def buildClearReclaimPatch : NodePatch where
  annotations := [( reclaimRequestedAnnotation, none), ( reclaimReasonAnnotation, none),
    ( reclaimRequestedAtAnnotation, none)]

def nonBlank (text : Option String) : Option String :=
  text.filter fun s => !(Text.trim s).isEmpty

def buildEmergencyReclaimEvent (request : ReclaimRequest) : KubeEvent :=
  let reason := (nonBlank request.reason).getD "reclaim trigger on Node"
  { warning := true
    reason := reasonEmergencyReclaim
    note := some (match nonBlank request.requestedAt with
      | some ts => "Emergency reclaim requested (" ++ ts ++ "): " ++ reason
      | none => "Emergency reclaim requested: " ++ reason)
    action := "EmergencyReclaim" }

def buildEmergencyDisableScheduleEvent : KubeEvent where
  warning := true
  reason := "EmergencyReclaimDisabledSchedule"
  note := some ("spec.enabled flipped to false to break the eject→re-add→re-eject loop. Re-enable " ++
    "is a user action.")
  action := "EmergencyReclaimDisableSchedule"

def buildRapidReReclaimEvent (name : String) : KubeEvent where
  warning := true
  reason := "RapidReReclaim"
  note := some ("ScheduledMachine " ++ name ++ " has been emergency-reclaimed " ++
    toString rapidReReclaimThreshold ++ " or more times within " ++
    toString rapidReReclaimWindowSecs ++ " seconds. The conflicting process is likely still " ++
    "running on the node — stop it before re-enabling spec.enabled, or the agent will fire again " ++
    "on the next reconcile.")
  action := "RapidReReclaim"

def emergencyReclaimMessage (nodeName : String) (request : ReclaimRequest) : String :=
  let reasonPart := (nonBlank request.reason).elim "" fun r => ": " ++ r
  let timePart := (nonBlank request.requestedAt).elim "" fun t => " at " ++ t
  "Emergency reclaim on node " ++ nodeName ++ timePart ++ reasonPart

def emergencyDrainTimeoutSecs : Nat := 60

def emergencyDisabledMessage : String :=
  "Schedule disabled by emergency reclaim; re-enable is a user action"

/-- The bookkeeping of step 2: remember the reclaim and warn when they come too fast. -/
def noteReclaim (resource : ScheduledMachine) : Reconcile Unit := do
  let now ← call .now
  let breach ← call (.recordReclaim now)
  if breach then publishBestEffort (buildRapidReReclaimEvent resource.name) else return ()

/-- Steps 4 to 7 of the emergency reclaim, after the drain. -/
def finishEmergencyRemove (settings : Settings) (resource : ScheduledMachine) (ns : String)
    (client : Client) (nodeName : String) : Reconcile Action := do
  removeMachineFromCluster settings resource ns
  orKubeError (← call .patchDisableSchedule)
  publishBestEffort buildEmergencyDisableScheduleEvent
  let _ ← call (.patchNode client nodeName buildClearReclaimPatch)
  updatePhase (some .emergencyRemove) .disabled (some reasonScheduleDisabled)
    (some emergencyDisabledMessage) false
  return .requeue timerRequeueSecs

def handleEmergencyRemove (settings : Settings) (resource : ScheduledMachine) (nodeName : String)
    (request : ReclaimRequest) : Reconcile Action := do
  let ns ← namespaceOf resource
  publishBestEffort (buildEmergencyReclaimEvent request)
  updatePhase resource.phase .emergencyRemove (some reasonEmergencyReclaim)
    (some (emergencyReclaimMessage nodeName request)) false
  noteReclaim resource
  let client ← check (← call .resolveChild)
  let _ ← attempt (drainNodeWithTimeout client nodeName emergencyDrainTimeoutSecs)
  finishEmergencyRemove settings resource ns client nodeName

end FiveSpot.Machine
