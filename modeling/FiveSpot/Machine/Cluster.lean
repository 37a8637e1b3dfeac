import Mathlib.Logic.Function.Basic
import FiveSpot.Effects.Fallible
import FiveSpot.Effects.System
import FiveSpot.Machine.Types

/-!
# The surroundings of the ScheduledMachine reconciler

The calls the reconciler makes, the part of the clusters and of the process that answers them, and
the meaning of each call. Every API call may fail; a call that fails may still have taken effect,
as when only its response is lost.
-/

namespace FiveSpot.Machine

set_option autoImplicit false

open Effects

inductive LogLine where
  /-- "Creating CAPI resources from inline specs". -/
  | creatingCapiResources
  /-- "Grace period elapsed - draining node and removing machine". -/
  | gracePeriodElapsed
  /-- "Schedule evaluated", right before the match on the phase. -/
  | scheduleEvaluated (shouldBeActive : Bool)
  deriving DecidableEq

inductive Client where
  | management
  | child (cluster : String)
  deriving DecidableEq

structure ObjectKey where
  group : String
  plural : String
  ns : String
  name : String
  deriving DecidableEq

structure Object where
  data : Json
  terminating : Bool

structure Taint where
  key : String
  value : Option String
  effect : String
  deriving DecidableEq

structure Node where
  labels : StringMap
  annotations : StringMap
  unschedulable : Bool
  taints : List Taint
  ready : Bool

structure Pod where
  name : Option String
  ns : Option String
  phase : Option String
  ownerKinds : List String

/-- A patch to a Node; a `none` in the maps removes the key. -/
structure NodePatch where
  labels : List (String × Option String) := []
  annotations : List (String × Option String) := []
  unschedulable : Option Bool := none
  taints : Option (List Taint) := none

structure AccessStatus where
  allowed : Bool
  reason : Option String

inductive Request where
  | info (line : LogLine)
  | isLeader
  | now
  | instant
  | timerFired
  | publish (event : KubeEvent)
  | patchStatus (patch : StatusPatch)
  | patchFinalizers (finalizers : List String)
  | patchDisableSchedule
  | pinnedKind (group version kind : String)
  | getProvider (ns name : String)
  | resolveChild
  | accessReview (group version plural ns : String)
  | create (version : String) (key : ObjectKey) (body : Json)
  | delete (version : String) (key : ObjectKey)
  | get (key : ObjectKey)
  | getNode (client : Client) (name : String)
  | patchNode (client : Client) (name : String) (patch : NodePatch)
  | listPods (client : Client) (node : String)
  | deletePod (client : Client) (ns name : String)
  | recordReclaim (now : Instant)
  | applyConfigMap (client : Client) (name : String) (commands : List String)
  | deleteConfigMap (client : Client) (name : String)
  | getKataSource (client : Client) (kind : KataConfigSourceKind) (ns name : String)
  | getNamespace (client : Client) (ns : String)

@[reducible] def Response : Request → Type
  | .info _ => Unit
  | .isLeader => Bool
  | .now => Instant
  | .instant => Instant
  | .timerFired => Bool
  | .resolveChild => Except ReconcilerError Client
  | .recordReclaim _ => Bool
  | .getProvider _ _ => Except KubeError (Option Json)
  | .accessReview _ _ _ _ => Except KubeError AccessStatus
  | .get _ => Except KubeError Json
  | .getNode _ _ => Except KubeError Node
  | .listPods _ _ => Except KubeError (List Pod)
  | .getKataSource _ _ _ _ => Except KubeError Bool
  | .getNamespace _ _ => Except KubeError Bool
  | _ => Except KubeError Unit

structure Settings where
  instanceId : Nat
  instanceCount : Nat
  forceFinalizerOnTimeout : Bool
  capiMachineApiVersion : String
  /-- A served version is the part of an `apiVersion` after the slash. -/
  servedVersion : '/' ∉ capiMachineApiVersion.toList

structure World where
  settings : Settings
  machine : ScheduledMachine
  clock : Instant
  monotonic : Instant
  leader : Bool
  timerFired : Bool
  providerInstalled : Bool
  provider : Option Json
  child : Except ReconcilerError Client
  access : String → String → AccessStatus
  objects : ObjectKey → Option Object
  nodes : Client → String → Option Node
  pods : Client → String → List Pod
  kataSources : Client → KataConfigSourceKind → String → String → Bool
  namespaces : Client → String → Bool
  /-- The reclaims remembered for this resource; lost when the process ends. -/
  recentReclaims : List Instant

def applyMap (old : StringMap) (changes : List (String × Option String)) : StringMap :=
  changes.foldl (fun m (k, v) =>
    match v with
    | some v => StringMap.insert k v m
    | none => m.filter fun entry => entry.1 != k) old

def NodePatch.apply (p : NodePatch) (n : Node) : Node :=
  { n with
    labels := applyMap n.labels p.labels
    annotations := applyMap n.annotations p.annotations
    unschedulable := p.unschedulable.getD n.unschedulable
    taints := p.taints.getD n.taints }

def rapidReReclaimThreshold : Nat := 3
def rapidReReclaimWindowSecs : Int := 600
def rapidReReclaimMaxTracked : Nat := 10

def pruneOldReclaimEvents (events : List Instant) (now : Instant) : List Instant :=
  events.dropWhile fun t => t < now - rapidReReclaimWindowSecs * nanosPerSecond

/-- `record_emergency_reclaim_event`: the events kept and whether the threshold is reached. -/
def recordEmergencyReclaimEvent (events : List Instant) (now : Instant) : List Instant × Bool :=
  let pushed := pruneOldReclaimEvents events now ++ [now]
  let kept := pushed.drop (pushed.length - rapidReReclaimMaxTracked)
  (kept, rapidReReclaimThreshold ≤ kept.length)

namespace World

variable (w : World)

def patchStatus (p : StatusPatch) : World :=
  { w with machine := { w.machine with status := some (p.apply w.machine.status) } }

def patchFinalizers (fs : List String) : World :=
  { w with machine := { w.machine with finalizers := some fs } }

def disableSchedule : World :=
  { w with machine := { w.machine with spec := { w.machine.spec with enabled := false } } }

def create (key : ObjectKey) (body : Json) : Except KubeError World :=
  match w.objects key with
  | some _ => .error (.api httpAlreadyExists "already exists")
  | none => .ok { w with objects := Function.update w.objects key (some ⟨body, false⟩) }

/-- A deleted object terminates; its own controller takes it away later. -/
def delete (key : ObjectKey) : Except KubeError World :=
  match w.objects key with
  | none => notFound
  | some o =>
      let deleted : Object := { o with terminating := true }
      .ok { w with objects := Function.update w.objects key (some deleted) }

def patchNode (client : Client) (name : String) (p : NodePatch) : Except KubeError World :=
  match w.nodes client name with
  | none => notFound
  | some n =>
      let patched := Function.update (w.nodes client) name (some (p.apply n))
      .ok { w with nodes := Function.update w.nodes client patched }

def exec (r : Request) (c : Answer) : Response r × World :=
  match r with
  | .info _ => ((), w)
  | .isLeader => (w.leader, w)
  | .now => (w.clock, w)
  | .instant => (w.monotonic, w)
  | .timerFired => (w.timerFired, w)
  | .publish _ => writeAnswer w c (.ok w)
  | .patchStatus p => writeAnswer w c (.ok (w.patchStatus p))
  | .patchFinalizers fs => writeAnswer w c (.ok (w.patchFinalizers fs))
  | .patchDisableSchedule => writeAnswer w c (.ok w.disableSchedule)
  | .pinnedKind _ _ _ => (readAnswer c (if w.providerInstalled then .ok () else notFound), w)
  | .getProvider _ _ => (readAnswer c (.ok w.provider), w)
  | .resolveChild =>
      (match c with
        | .ok => w.child
        | .fail e _ => .error (.kubeError e), w)
  | .accessReview group _ plural _ => (readAnswer c (.ok (w.access group plural)), w)
  | .create _ key body => writeAnswer w c (w.create key body)
  | .delete _ key => writeAnswer w c (w.delete key)
  | .get key =>
      (readAnswer c (match w.objects key with
        | some o => .ok o.data
        | none => notFound), w)
  | .getNode client name =>
      (readAnswer c (match w.nodes client name with
        | some n => .ok n
        | none => notFound), w)
  | .patchNode client name p => writeAnswer w c (w.patchNode client name p)
  | .listPods client node => (readAnswer c (.ok (w.pods client node)), w)
  | .deletePod _ _ _ => writeAnswer w c (.ok w)
  | .recordReclaim now =>
      ((recordEmergencyReclaimEvent w.recentReclaims now).2,
        { w with recentReclaims := (recordEmergencyReclaimEvent w.recentReclaims now).1 })
  | .applyConfigMap _ _ _ => writeAnswer w c (.ok w)
  | .deleteConfigMap _ _ => writeAnswer w c (.ok w)
  | .getKataSource client kind ns name => (readAnswer c (.ok (w.kataSources client kind ns name)), w)
  | .getNamespace client ns => (readAnswer c (.ok (w.namespaces client ns)), w)

end World

end FiveSpot.Machine
