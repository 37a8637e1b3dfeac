import FiveSpot.Machine.Cluster

/-!
# Checks on a ScheduledMachine

The pure functions of `reconcilers/helpers.rs`: which instance processes a resource, the
grace period, and the validation of names, commands, labels, API groups and embedded metadata.
-/

namespace FiveSpot.Machine

set_option autoImplicit false

/-- `should_process_resource`; sums and products wrap at 64 bits. -/
def shouldProcessResource (name ns : String) (priority instanceCount instanceId : Nat) : Bool :=
  if instanceCount ≤ 1 then true
  else
    let bytes := (ns ++ "/" ++ name).toUTF8.toList
    let hash := bytes.foldl (fun hash byte => (hash * 31 + byte.toNat) % UInt64.size) 0
    let hash := (hash + priority * 1000) % UInt64.size
    hash % instanceCount == instanceId

def hasFinalizer (resource : ScheduledMachine) : Bool :=
  match resource.finalizers with
  | none => false
  | some fs => fs.contains finalizerScheduledMachine

/-- The start of the grace period: the time of the first condition with the grace-period reason. -/
def graceStart (status : ScheduledMachineStatus) : Option Timestamp :=
  (status.conditions.find? fun c => c.reason == reasonGracePeriod).map fun c => c.lastTransitionTime

/-- The recorded start and the configured length of the grace period, when one was started. -/
def recordedGracePeriod (resource : ScheduledMachine) :
    Except ReconcilerError (Option (Instant × Nat)) := do
  match resource.status with
  | none => throw (.invalidConfig "Resource has no status")
  | some status =>
      match graceStart status with
      | none => return none
      | some stamp =>
          match stamp.parse with
          | .error e => throw (.invalidConfig ("Invalid timestamp: " ++ e))
          | .ok start =>
              let timeout ← parseDuration resource.spec.gracefulShutdownTimeout
              return some (start, timeout)

/-- A start ahead of the clock counts as elapsed. -/
def gracePeriodElapsed (start now : Instant) (timeout : Nat) : Bool :=
  let elapsed := numSeconds (now - start)
  if elapsed < 0 then true else (timeout : Int) ≤ elapsed

def reservedLabelPrefixes : List String :=
  ["kubernetes.io/", "k8s.io/", "cluster.x-k8s.io/", "5spot.finos.org/"]

def reservedPrefixOf (key : String) : Option String :=
  reservedLabelPrefixes.find? fun pre => Text.startsWith pre key

def validateLabels (labels : StringMap) (field : String) : Except ReconcilerError Unit :=
  match labels.findSome? fun (key, _) => (reservedPrefixOf key).map fun pre => (key, pre) with
  | none => .ok ()
  | some (key, pre) =>
      .error (.validationError
        (field ++ " key '" ++ key ++ "' uses reserved prefix '" ++ pre ++ "'"))

def validateEmbeddedMetadata (embedded : EmbeddedResource) (field : String) :
    Except ReconcilerError Unit := do
  if embedded.metadataNamespace.isSome then
    throw (.validationError (field ++ ".metadata.namespace is not permitted — the controller " ++
      "always creates the resource in the ScheduledMachine's own namespace"))
  else if embedded.metadataName.isSome then
    throw (.validationError (field ++ ".metadata.name is not permitted — the controller names " ++
      "the resource after the ScheduledMachine"))
  else
    validateLabels embedded.metadataLabels (field ++ ".metadata.labels")
    validateLabels embedded.metadataAnnotations (field ++ ".metadata.annotations")

def maxClusterNameLen : Nat := 63

def clusterNameChar (c : Char) : Bool := c.isAlphanum || c == '-' || c == '.' || c == '_'

def validateClusterName (clusterName : String) : Except ReconcilerError Unit :=
  if clusterName.isEmpty then
    .error (.validationError "spec.clusterName must not be empty")
  else if maxClusterNameLen < clusterName.utf8ByteSize then
    .error (.validationError ("spec.clusterName length " ++ toString clusterName.utf8ByteSize ++
      " exceeds maximum of " ++ toString maxClusterNameLen ++ " characters"))
  else if !clusterName.toList.all clusterNameChar then
    .error (.validationError ("spec.clusterName contains invalid character(s); allowed: ASCII " ++
      "alphanumerics, '-', '.', '_' (got: " ++ Text.debug clusterName ++ ")"))
  else .ok ()

def maxKillIfCommandsCount : Nat := 100
def maxKillIfCommandLen : Nat := 256

def validateKillIfCommand (idx : Nat) (cmd : String) : Except ReconcilerError Unit :=
  if cmd.isEmpty then
    .error (.validationError ("spec.killIfCommands[" ++ toString idx ++ "] must not be empty"))
  else if maxKillIfCommandLen < cmd.utf8ByteSize then
    .error (.validationError ("spec.killIfCommands[" ++ toString idx ++ "] length " ++
      toString cmd.utf8ByteSize ++ " exceeds maximum of " ++ toString maxKillIfCommandLen ++
      " characters"))
  else .ok ()

def validateKillIfCommandsFrom (idx : Nat) : List String → Except ReconcilerError Unit
  | [] => .ok ()
  | cmd :: cmds => do
      validateKillIfCommand idx cmd
      validateKillIfCommandsFrom (idx + 1) cmds

def validateKillIfCommands : Option (List String) → Except ReconcilerError Unit
  | none => .ok ()
  | some cmds =>
      if maxKillIfCommandsCount < cmds.length then
        .error (.validationError ("spec.killIfCommands has " ++ toString cmds.length ++
          " entries, exceeds maximum of " ++ toString maxKillIfCommandsCount))
      else validateKillIfCommandsFrom 0 cmds

def allowedBootstrapApiGroups : List String := ["bootstrap.cluster.x-k8s.io", "k0smotron.io"]

def allowedInfrastructureApiGroups : List String :=
  ["infrastructure.cluster.x-k8s.io", "k0smotron.io"]

def validateApiGroup (apiVersion : String) (allowedGroups : List String) (resourceType : String) :
    Except ReconcilerError Unit :=
  match Text.rsplitOnce '/' apiVersion with
  | none =>
      .error (.validationError (resourceType ++ " apiVersion '" ++ apiVersion ++
        "' must use a namespaced API group (e.g. 'bootstrap.cluster.x-k8s.io/v1beta2')"))
  | some (group, _) =>
      if allowedGroups.contains group then .ok ()
      else
        .error (.validationError (resourceType ++ " API group '" ++ group ++
          "' is not allowed. Permitted groups: " ++ Text.debugList allowedGroups))

def validateScheduleRef (schedule : SpotScheduleRef) : Except ReconcilerError Unit :=
  if schedule.isSpotScheduleGroup then .ok ()
  else
    .error (.validationError ("spec.schedule.apiVersion group must be '" ++ spotScheduleApiGroup ++
      "', got '" ++ schedule.group ++ "'"))

def capiGroup : String := "cluster.x-k8s.io"
def capiResourceMachines : String := "machines"

/-- `parse_api_version`: group and version; the core API has no group. -/
def parseApiVersion (apiVersion : String) : String × String :=
  (Text.rsplitOnce '/' apiVersion).getD ("", apiVersion)

def resourcePlural (kind : String) : String := Text.toLowercase kind ++ "s"

def machineApiVersionFor (served : String) (bootstrapApiVersion : Option String) : String :=
  match bootstrapApiVersion.bind (Text.rsplitOnce '/') with
  | some (_, version) => if version.isEmpty then served else version
  | none => served

def capiLegacyObjectReferenceVersions : List String := ["v1alpha3", "v1alpha4", "v1beta1"]

def machineContractRef (machineApiVersion apiVersion kind name ns : String) : Json :=
  if capiLegacyObjectReferenceVersions.contains machineApiVersion then
    .obj [("apiVersion", .str apiVersion), ("kind", .str kind), ("name", .str name),
      ("namespace", .str ns)]
  else
    .obj [("apiGroup", .str (parseApiVersion apiVersion).1), ("kind", .str kind),
      ("name", .str name)]

def scheduledMachineLabel : String := "5spot.finos.org/scheduled-machine"
def capiClusterNameLabel : String := "cluster.x-k8s.io/cluster-name"

/-- The tracking labels are inserted last, so that they win over the user's. -/
def mergeOwnedLabels (labels : StringMap) (smName clusterName : String) : StringMap :=
  StringMap.insert capiClusterNameLabel clusterName
    (StringMap.insert scheduledMachineLabel smName labels)

end FiveSpot.Machine
