import FiveSpot.Capacity.Cluster

/-!
# The steps of a capacity reconcile

The functions of `reconcilers/scheduled_capacity.rs` that call the API before the status is written:
resolution of the target, the conflict check and the apply of the owned object.
-/

namespace FiveSpot.Capacity

set_option autoImplicit false

open Effects Effects.Prog

inductive CapacityError where
  | unnamespaced
  | kube (e : KubeError)
  | path (e : CapacityPathError)
  | timeout (text : String)
  | unowned

def CapacityError.text : CapacityError → String
  | .unnamespaced => "ScheduledCapacity must be namespaced"
  | .kube e => "Kubernetes API error: " ++ e.text
  | .path e => "invalid capacity path: " ++ e.text
  | .timeout text => "invalid handback timeout: " ++ text
  | .unowned => "ScheduledCapacity has no uid to own the capacity object with"

/-- A step of the reconciler: it calls the surroundings and may end in an error. -/
abbrev Reconcile (α : Type) : Type := ExceptT CapacityError (Prog Request Response) α

abbrev call (r : Request) : Reconcile (Response r) := ask r

def check {α : Type} : Except CapacityError α → Reconcile α
  | .ok a => pure a
  | .error e => throw e

/-- The `?` operator on an API call. -/
def orKube {α : Type} : Except KubeError α → Reconcile α
  | .ok a => pure a
  | .error e => throw (.kube e)

/-- The `?` operator on the result of a path function. -/
def orPath {α : Type} : Except CapacityPathError α → Reconcile α
  | .ok a => pure a
  | .error e => throw (.path e)

def reasonTargetResolved : String := "Resolved"
def reasonTargetCrdNotInstalled : String := "TargetCRDNotInstalled"
def reasonTargetNotOwned : String := "TargetNotOwned"
def reasonTargetGroupNotAllowed : String := "TargetGroupNotAllowed"
def reasonTargetNotWritable : String := "TargetNotWritable"

def allowedCapacityTargetApiGroups : List String := ["banlieue.io"]
def rbacVerbCreate : String := "create"
def rbacVerbPatch : String := "patch"

structure TargetResolution where
  object : Option Object
  /-- The plural of the discovered resource. -/
  apiResource : Option String
  writable : Bool
  reason : String
  message : String

def TargetResolution.blocked (reason message : String) : TargetResolution where
  object := none
  apiResource := none
  writable := false
  reason := reason
  message := message

def isOwnedBy (object : Object) (capacity : ScheduledCapacity) : Bool :=
  match capacity.uid with
  | none => false
  | some uid =>
      (object.ownerReferences.getD []).any fun owner =>
        owner.uid == uid && owner.controller.getD false

def canWrite (ns group plural verb : String) : Reconcile Bool := do
  let allowed ← orKube (← call (.accessReview verb group plural ns))
  return allowed.getD false

/-- The first verb the service account may not use on the target. -/
def forbiddenVerb (ns group plural : String) : List String → Reconcile (Option String)
  | [] => return none
  | verb :: verbs => do
      if !(← canWrite ns group plural verb) then return some verb
      else forbiddenVerb ns group plural verbs

/-- The end of `resolve_target`: the object that is there must be ours. -/
def resolveExisting (ns plural : String) (capacity : ScheduledCapacity) :
    Reconcile TargetResolution := do
  let name := capacity.name
  let kind := capacity.spec.target.kind
  let existing ← orKube (← call (.getObject plural ns name))
  match existing with
  | some object =>
      if !isOwnedBy object capacity then
        return .blocked reasonTargetNotOwned (kind ++ " '" ++ ns ++ "/" ++ name ++
          "' already exists and is not owned by this ScheduledCapacity; 5-Spot will not write an " ++
          "object it did not create")
      else
        return ⟨some object, some plural, true, reasonTargetResolved,
          "owned " ++ kind ++ " " ++ name⟩
  | none =>
      return ⟨none, some plural, true, reasonTargetResolved,
        kind ++ " " ++ name ++ " will be created on the first write"⟩

def resolveTarget (ns : String) (capacity : ScheduledCapacity) : Reconcile TargetResolution := do
  let target := capacity.spec.target
  let (group, version) := (Text.splitOnce '/' target.apiVersion).getD ("", target.apiVersion)
  if !allowedCapacityTargetApiGroups.contains group then
    return .blocked reasonTargetGroupNotAllowed ("target API group '" ++ group ++
      "' is not allowed; permitted groups: " ++ Text.debugList allowedCapacityTargetApiGroups)
  else
    match ← call (.pinnedKind group version target.kind) with
    | .error _ =>
        return .blocked reasonTargetCrdNotInstalled
          ("no CRD for " ++ group ++ "/" ++ version ++ " kind " ++ target.kind ++ " is installed")
    | .ok plural =>
        match ← forbiddenVerb ns group plural [rbacVerbCreate, rbacVerbPatch] with
        | some verb =>
            return .blocked reasonTargetNotWritable ("capacity controller service account may not " ++
              verb ++ " '" ++ plural ++ "' in API group '" ++ group ++ "' (namespace '" ++ ns ++ "')")
        | none => resolveExisting ns plural capacity

def governsNode (nodeName : String) (machine : Machine.ScheduledMachine) : Bool :=
  machine.nodeRef.any fun nodeRef => nodeRef.name == nodeName

def detectHostGovernanceConflict (ns : String) (capacity : ScheduledCapacity) : Reconcile Bool := do
  match capacity.spec.nodeName with
  | none => return false
  | some nodeName =>
      let machines ← orKube (← call (.listMachines ns))
      return machines.any (governsNode nodeName)

def commonLabels : List (String × String) :=
  [("app.kubernetes.io/managed-by", "5spot-controller"), ("app.kubernetes.io/name", "5spot")]

def controllerOwnerRef (capacity : ScheduledCapacity) : Option OwnerReference :=
  capacity.uid.map fun uid =>
    { apiVersion := "5spot.finos.org/v1alpha1"
      kind := "ScheduledCapacity"
      name := capacity.name
      uid := uid
      controller := some true
      blockOwnerDeletion := none }

def buildOwnedObject (capacity : ScheduledCapacity) (ns : String) (value : Int) :
    Except CapacityError OwnedObject := do
  match injectCapacityField capacity.spec.template capacity.spec.capacity.field value with
  | .error e => throw (.path e)
  | .ok spec =>
      match controllerOwnerRef capacity with
      | none => throw .unowned
      | some owner =>
          return {
            apiVersion := capacity.spec.target.apiVersion
            kind := capacity.spec.target.kind
            name := capacity.name
            ns := ns
            labels := commonLabels
            owner := { owner with blockOwnerDeletion := some true }
            spec := spec }

/-- Without a discovered resource this succeeds and sends nothing. -/
def applyOwnedObject (ns : String) (capacity : ScheduledCapacity) (target : TargetResolution)
    (value : Int) : Reconcile Unit := do
  match target.apiResource with
  | none => return ()
  | some plural =>
      let desired ← check (buildOwnedObject capacity ns value)
      orKube (← call (.applyObject plural ns capacity.name desired))

/-- In nanoseconds; the parsed durations are all within chrono's range. -/
def parseHandbackTimeout (capacity : ScheduledCapacity) : Except CapacityError Int :=
  match capacity.spec.handback with
  | none => .ok 0
  | some handback =>
      match parseDuration handback.timeout with
      | .ok seconds => .ok (seconds * nanosPerSecond)
      | .error e => .error (.timeout e.text)

def parseRfc3339 (value : Timestamp) : Option Instant := value.parse.toOption

end FiveSpot.Capacity
