import FiveSpot.Data.JsonText
import FiveSpot.Machine.Shutdown

/-!
# What an active machine's Node is given

The reclaim agent's label and configuration, the kata reference and the user's taints. All three
are best effort: their errors end them and nothing else.
-/

namespace FiveSpot.Machine

set_option autoImplicit false

open Effects Effects.Prog

def reclaimAgentLabel : String := "5spot.finos.org/reclaim-agent"
def reclaimAgentLabelEnabled : String := "enabled"
def perNodeConfigmapName (nodeName : String) : String := "reclaim-agent-" ++ nodeName

def buildReclaimAgentLabelPatch (enable : Bool) : NodePatch where
  labels := [(reclaimAgentLabel, if enable then some reclaimAgentLabelEnabled else none)]

def reconcileReclaimAgentProvision (client : Client) (nodeName : String) (commands : List String) :
    Reconcile Unit := do
  orKubeError (← call (.patchNode client nodeName (buildReclaimAgentLabelPatch (!commands.isEmpty))))
  if commands.isEmpty then
    match ← call (.deleteConfigMap client (perNodeConfigmapName nodeName)) with
    | .ok () => return ()
    | .error e => if e.isNotFound then return () else throw (.kubeError e)
  else
    orKubeError (← call (.applyConfigMap client (perNodeConfigmapName nodeName) commands))

inductive KataDeliveryOutcome where
  | disabled
  | ready
  | sourceNotFound
  | targetNamespaceMissing
  deriving DecidableEq

def kataConfigLabel : String := "5spot.finos.org/kata-config"
def kataConfigLabelEnabled : String := "enabled"
def kataConfigRefAnnotation : String := "5spot.finos.org/kata-config-ref"

/-- The members of the reference, their keys in order as `serde_json` prints them. -/
def kataRefValue (kata : KataConfig) : String :=
  Json.renderObject [("key", kata.key), ("kind", kata.kind.text), ("name", kata.name),
    ("namespace", kata.ns), ("restartService", kata.restartService)]

def buildKataConfigRefAnnotationPatch (kata : Option KataConfig) : NodePatch where
  annotations := [( kataConfigRefAnnotation, kata.map kataRefValue)]

/-- The delivery patch sets the opt-in label and the reference; only the reference is ever cleared. -/
def kataDeliverPatch (kata : KataConfig) : NodePatch :=
  { buildKataConfigRefAnnotationPatch (some kata) with
    labels := [(kataConfigLabel, some kataConfigLabelEnabled)] }

def reconcileKataConfigDelivery (client : Client) (nodeName : String) :
    Option KataConfig → Reconcile KataDeliveryOutcome
  | none => do
      orKubeError (← call (.patchNode client nodeName (buildKataConfigRefAnnotationPatch none)))
      return .disabled
  | some kata => do
      let present ← orKubeError (← call (.getKataSource client kata.kind kata.ns kata.name))
      if present then
        orKubeError (← call (.patchNode client nodeName (kataDeliverPatch kata)))
        return .ready
      else
        let nsPresent ← orKubeError (← call (.getNamespace client kata.ns))
        orKubeError (← call (.patchNode client nodeName (buildKataConfigRefAnnotationPatch none)))
        return if nsPresent then .sourceNotFound else .targetNamespaceMissing

structure NodeTaintPlan where
  toAdd : List NodeTaint
  toUpdate : List NodeTaint
  toRemove : List NodeTaint
  unchanged : List NodeTaint
  conflicts : List NodeTaint

def NodeTaintPlan.isNoop (p : NodeTaintPlan) : Bool :=
  p.toAdd.isEmpty && p.toUpdate.isEmpty && p.toRemove.isEmpty

/-- A taint of the Node with the identity `(key, effect)`. -/
def taintMatches (t : Taint) (key : String) (effect : TaintEffect) : Bool :=
  t.key == key && t.effect == effect.text

def effectFromStr (s : String) : Option TaintEffect :=
  if s = "NoSchedule" then some .noSchedule
  else if s = "PreferNoSchedule" then some .preferNoSchedule
  else if s = "NoExecute" then some .noExecute
  else none

def findCurrent (current : List Taint) (t : NodeTaint) : Option Taint :=
  current.find? fun c => c.key == t.key && effectFromStr c.effect == some t.effect

def findApplied (applied : List NodeTaint) (t : NodeTaint) : Option NodeTaint :=
  applied.find? fun p => p.key == t.key && p.effect == t.effect

def planDesired (current : List Taint) (applied : List NodeTaint) (plan : NodeTaintPlan)
    (want : NodeTaint) : NodeTaintPlan :=
  match findCurrent current want with
  | none => { plan with toAdd := plan.toAdd ++ [want] }
  | some cur =>
      if cur.value == want.value then { plan with unchanged := plan.unchanged ++ [want] }
      else if (findApplied applied want).any fun p => p.value == cur.value then
        { plan with toUpdate := plan.toUpdate ++ [want] }
      else { plan with conflicts := plan.conflicts ++ [want] }

def planApplied (current : List Taint) (desired : List NodeTaint) (plan : NodeTaintPlan)
    (applied : NodeTaint) : NodeTaintPlan :=
  if desired.any fun d => d.key == applied.key && d.effect == applied.effect then plan
  else
    match findCurrent current applied with
    | none => plan
    | some cur =>
        if cur.value == applied.value then { plan with toRemove := plan.toRemove ++ [applied] }
        else { plan with conflicts := plan.conflicts ++ [applied] }

def diffNodeTaints (current : List Taint) (desired applied : List NodeTaint) : NodeTaintPlan :=
  applied.foldl (planApplied current desired)
    (desired.foldl (planDesired current applied) ⟨[], [], [], [], []⟩)

def NodeTaint.toTaint (t : NodeTaint) : Taint := ⟨t.key, t.value, t.effect.text⟩

def targetTaints (current : List Taint) (plan : NodeTaintPlan) : List Taint :=
  let kept := current.filter fun t => !plan.toRemove.any fun r => taintMatches t r.key r.effect
  let updated := kept.map fun t =>
    match plan.toUpdate.find? fun u => taintMatches t u.key u.effect with
    | some update => update.toTaint
    | none => t
  updated ++ plan.toAdd.map NodeTaint.toTaint

def appliedTaintsAnnotation : String := "5spot.finos.org/applied-taints"

def ownedTaintsValue (plan : NodeTaintPlan) : String :=
  "[" ++ ",".intercalate ((plan.toAdd ++ plan.toUpdate ++ plan.unchanged).map fun t =>
    Json.renderObject [("effect", t.effect.text), ("key", t.key)]) ++ "]"

def applyNodeTaints (client : Client) (nodeName : String) (plan : NodeTaintPlan) :
    Reconcile Unit := do
  if plan.isNoop then return ()
  else
    let node ← orKubeError (← call (.getNode client nodeName))
    orKubeError (← call (.patchNode client nodeName
      { annotations := [( appliedTaintsAnnotation, some (ownedTaintsValue plan))]
        taints := some (targetTaints node.taints plan) }))

inductive NodeTaintReconcileOutcome where
  | noNodeYet
  | nodeNotReady
  | applied (taints : List NodeTaint)
  | conflict (conflicts : List NodeTaint)

def reconcileNodeTaints (client : Client) (nodeName : String) (desired applied : List NodeTaint) :
    Reconcile NodeTaintReconcileOutcome := do
  match ← call (.getNode client nodeName) with
  | .error e => if e.isNotFound then return .noNodeYet else throw (.kubeError e)
  | .ok node =>
      if !node.ready then return .nodeNotReady
      else
        let plan := diffNodeTaints node.taints desired applied
        if !plan.conflicts.isEmpty then return .conflict plan.conflicts
        else
          applyNodeTaints client nodeName plan
          return .applied desired

/-- Run a step on the Node behind a reference, with the client of its cluster. -/
def onNode (nodeRef : Option NodeRef) (step : Client → String → Reconcile Unit) :
    Reconcile Unit := do
  match nodeRef with
  | none => return ()
  | some r =>
      if r.name.isEmpty then return ()
      else
        match ← call .resolveChild with
        | .error _ => return ()
        | .ok client =>
            let _ ← attempt (step client r.name)
            return ()

def provisionReclaimAgentBestEffort (resource : ScheduledMachine) (nodeRef : Option NodeRef) :
    Reconcile Unit :=
  onNode nodeRef fun client nodeName =>
    reconcileReclaimAgentProvision client nodeName (resource.spec.killIfCommands.getD [])

def provisionKataConfigBestEffort (resource : ScheduledMachine) (nodeRef : Option NodeRef) :
    Reconcile Unit :=
  onNode nodeRef fun client nodeName => do
    let _ ← reconcileKataConfigDelivery client nodeName resource.spec.kata
    return ()

def recordNodeTaints (desired applied : List NodeTaint) (client : Client) (nodeName : String) :
    Reconcile Unit := do
  match ← reconcileNodeTaints client nodeName desired applied with
  | .applied taints =>
      if taints = applied then return ()
      else orKubeError (← call (.patchStatus { appliedNodeTaints := some taints }))
  | _ => return ()

def reconcileNodeTaintsBestEffort (resource : ScheduledMachine) (nodeRef : Option NodeRef) :
    Reconcile Unit := do
  let desired := resource.spec.nodeTaints
  let applied := resource.status.elim [] fun s => s.appliedNodeTaints
  if resource.deletionTimestamp.isSome || resource.spec.killSwitch then return ()
  else if desired.isEmpty && applied.isEmpty then return ()
  else onNode nodeRef (recordNodeTaints desired applied)

end FiveSpot.Machine
