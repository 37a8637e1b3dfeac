import FiveSpot.Machine.Validation

/-!
# The steps of a reconcile

The functions of `reconcilers/helpers.rs` that call the API: phase updates, creation and removal of
the CAPI objects, the node drain, finalizer and deletion, the kill switch.
-/

namespace FiveSpot.Machine

set_option autoImplicit false

open Effects Effects.Prog

abbrev Reconcile (α : Type) : Type := ExceptT ReconcilerError (Prog Request Response) α

abbrev call (r : Request) : Reconcile (Response r) := ask r

def check {α : Type} : Except ReconcilerError α → Reconcile α
  | .ok a => pure a
  | .error e => throw e

def orKubeError {α : Type} : Except KubeError α → Reconcile α
  | .ok a => pure a
  | .error e => throw (.kubeError e)

def orCapiError {α : Type} (context : String) : Except KubeError α → Reconcile α
  | .ok a => pure a
  | .error e => throw (.capiError (context ++ ": " ++ e.text))

def namespaceOf (resource : ScheduledMachine) : Reconcile String :=
  match resource.ns with
  | some ns => pure ns
  | none => throw (.invalidConfig "ScheduledMachine must be namespaced")

def publishBestEffort (event : KubeEvent) : Reconcile Unit := do
  let _ ← call (.publish event)
  return ()

def buildPhaseTransitionEvent (fromPhase : Option Phase) (toPhase : Phase)
    (reason message : String) : KubeEvent where
  warning := toPhase == .error || toPhase == .terminated
  reason := reason
  note := some ((fromPhase.elim "Unknown" Phase.text) ++ " -> " ++ toPhase.text ++ ": " ++ message)
  action := "PhaseTransitionTo" ++ toPhase.text

/-- The status a phase update sends; the members it does not name keep their stored values. -/
def phasePatch (now : Instant) (phase : Phase) (reason message : String) (inSchedule : Bool) :
    StatusPatch where
  phase := some phase
  message := some message
  conditions := some [.new now conditionTypeReady conditionStatusTrue reason message]
  inSchedule := some inSchedule
  ready := some (phase == .active)

/-- What the `update_phase` functions share; they differ in the reason and message they default to. -/
def recordPhase (defaultReason defaultMessage : String) (fromPhase : Option Phase) (phase : Phase)
    (reason message : Option String) (inSchedule : Bool) : Reconcile Unit := do
  let reason := reason.getD defaultReason
  let message := message.getD defaultMessage
  publishBestEffort (buildPhaseTransitionEvent fromPhase phase reason message)
  let now ← call .now
  orKubeError (← call (.patchStatus (phasePatch now phase reason message inSchedule)))

def updatePhase : Option Phase → Phase → Option String → Option String → Bool → Reconcile Unit :=
  recordPhase reasonReconcileSucceeded "Phase transition completed"

def updatePhaseWithGracePeriod :
    Option Phase → Phase → Option String → Option String → Bool → Reconcile Unit :=
  recordPhase reasonGracePeriod "Grace period started"

def checkGracePeriodElapsed (resource : ScheduledMachine) : Reconcile Bool := do
  match ← check (recordedGracePeriod resource) with
  | none => return true
  | some (start, timeout) =>
      let now ← call .now
      return gracePeriodElapsed start now timeout

def addFinalizer (resource : ScheduledMachine) : Reconcile Action := do
  let _ ← namespaceOf resource
  let finalizers := resource.finalizers.getD []
  let finalizers :=
    if finalizers.contains finalizerScheduledMachine then finalizers
    else finalizers ++ [finalizerScheduledMachine]
  orKubeError (← call (.patchFinalizers finalizers))
  return .requeue 0

def objectKey (apiVersion kind ns name : String) : ObjectKey :=
  ⟨(parseApiVersion apiVersion).1, resourcePlural kind, ns, name⟩

def createDynamicResource (context apiVersion kind ns name : String) (body : Json) :
    Reconcile Unit := do
  match ← call (.create (parseApiVersion apiVersion).2 (objectKey apiVersion kind ns name) body) with
  | .ok () => return ()
  | .error e =>
      if e.isAlreadyExists then return ()
      else throw (.capiError (context ++ ": " ++ e.text))

def ensureCanCreate (ns apiVersion kind resourceLabel : String) : Reconcile Unit := do
  let (group, version) := parseApiVersion apiVersion
  let plural := resourcePlural kind
  let status ← orKubeError (← call (.accessReview group version plural ns))
  if status.allowed then return ()
  else
    let reason :=
      match status.reason with
      | some reason => if reason.isEmpty then "no reason provided by the API server" else reason
      | none => "no reason provided by the API server"
    throw (.permissionDenied ("controller service account is not permitted to create " ++
      resourceLabel ++ " resource '" ++ plural ++ "' in API group '" ++ group ++
      "' (namespace '" ++ ns ++ "'): " ++ reason))

def apiVersionFull : String := "5spot.finos.org/v1beta1"

def ownerReference (name uid : String) : Json :=
  .obj [("apiVersion", .str apiVersionFull), ("kind", .str "ScheduledMachine"), ("name", .str name),
    ("uid", .str uid), ("controller", .bool true), ("blockOwnerDeletion", .bool true)]

/-- A bootstrap or infrastructure object; it carries no owner reference. -/
def embeddedBody (embedded : EmbeddedResource) (apiVersion kind name ns clusterName : String) :
    Json :=
  let labels := mergeOwnedLabels embedded.metadataLabels name clusterName
  .obj [("apiVersion", .str apiVersion), ("kind", .str kind),
    ("metadata", .obj [("name", .str name), ("namespace", .str ns), ("labels", labels.toJson),
      ("annotations", embedded.metadataAnnotations.toJson)]),
    ("spec", embedded.spec.getD .null)]

def machineBody (spec : ScheduledMachineSpec) (version bootstrapApiVersion bootstrapKind
    infraApiVersion infraKind name uid ns : String) : Json :=
  let templateLabels := spec.machineTemplate.elim [] fun t => t.labels
  let annotations : StringMap := spec.machineTemplate.elim [] fun t => t.annotations
  let labels := mergeOwnedLabels templateLabels name spec.clusterName
  .obj [("apiVersion", .str (capiGroup ++ "/" ++ version)), ("kind", .str "Machine"),
    ("metadata", .obj [("name", .str name), ("namespace", .str ns), ("labels", labels.toJson),
      ("annotations", annotations.toJson), ("ownerReferences", .arr [ownerReference name uid])]),
    ("spec", .obj [("clusterName", .str spec.clusterName),
      ("bootstrap", .obj [("configRef",
        machineContractRef version bootstrapApiVersion bootstrapKind name ns)]),
      ("infrastructureRef", machineContractRef version infraApiVersion infraKind name ns)])]

def required {α : Type} (text : String) : Option α → Except ReconcilerError α
  | some a => .ok a
  | none => .error (.invalidConfig text)

def validateTemplate : Option MachineTemplateSpec → Except ReconcilerError Unit
  | none => .ok ()
  | some template => do
      validateLabels template.labels "machineTemplate.labels"
      validateLabels template.annotations "machineTemplate.annotations"

def addMachineToCluster (settings : Settings) (resource : ScheduledMachine) (ns : String) :
    Reconcile Unit := do
  let spec := resource.spec
  let name := resource.name
  call (.info .creatingCapiResources)
  let bootstrapApiVersion ← check (required "bootstrapSpec missing required field 'apiVersion'"
    spec.bootstrapSpec.apiVersion)
  let version := machineApiVersionFor settings.capiMachineApiVersion (some bootstrapApiVersion)
  let bootstrapKind ← check (required "bootstrapSpec missing required field 'kind'"
    spec.bootstrapSpec.kind)
  let infraApiVersion ← check (required "infrastructureSpec missing required field 'apiVersion'"
    spec.infrastructureSpec.apiVersion)
  let infraKind ← check (required "infrastructureSpec missing required field 'kind'"
    spec.infrastructureSpec.kind)
  check (validateClusterName spec.clusterName)
  check (validateKillIfCommands spec.killIfCommands)
  check (validateApiGroup bootstrapApiVersion allowedBootstrapApiGroups "bootstrap")
  check (validateApiGroup infraApiVersion allowedInfrastructureApiGroups "infrastructure")
  ensureCanCreate ns bootstrapApiVersion bootstrapKind "bootstrap"
  ensureCanCreate ns infraApiVersion infraKind "infrastructure"
  ensureCanCreate ns (capiGroup ++ "/" ++ version) "Machine" "machine"
  check (validateTemplate spec.machineTemplate)
  check (validateEmbeddedMetadata spec.bootstrapSpec "spec.bootstrapSpec")
  check (validateEmbeddedMetadata spec.infrastructureSpec "spec.infrastructureSpec")
  let uid ← check (required "Resource UID not set" resource.uid)
  createDynamicResource "Failed to create bootstrap resource" bootstrapApiVersion bootstrapKind ns
    name (embeddedBody spec.bootstrapSpec bootstrapApiVersion bootstrapKind name ns spec.clusterName)
  createDynamicResource "Failed to create infrastructure resource" infraApiVersion infraKind ns
    name (embeddedBody spec.infrastructureSpec infraApiVersion infraKind name ns spec.clusterName)
  createDynamicResource "Failed to create Machine" (capiGroup ++ "/" ++ version) "Machine" ns name
    (machineBody spec version bootstrapApiVersion bootstrapKind infraApiVersion infraKind name uid ns)

/-- A delete that finds nothing counts as done. -/
def deleteKey (context version : String) (key : ObjectKey) : Reconcile Unit := do
  match ← call (.delete version key) with
  | .ok () => return ()
  | .error e =>
      if e.isNotFound then return ()
      else throw (.capiError (context ++ ": " ++ e.text))

def deleteDynamicResource (apiVersion kind ns name : String) : Reconcile Unit :=
  deleteKey ("Failed to delete " ++ kind ++ " " ++ name) (parseApiVersion apiVersion).2
    (objectKey apiVersion kind ns name)

/-- Deletion of an embedded object; without an apiVersion and a kind there is nothing to delete. -/
def deleteEmbedded (embedded : EmbeddedResource) (ns name : String) : Reconcile Unit :=
  match embedded.apiVersion, embedded.kind with
  | some apiVersion, some kind => deleteDynamicResource apiVersion kind ns name
  | _, _ => pure ()

def machineKey (ns name : String) : ObjectKey := ⟨capiGroup, capiResourceMachines, ns, name⟩

def removeMachineFromCluster (settings : Settings) (resource : ScheduledMachine) (ns : String) :
    Reconcile Unit := do
  let version := machineApiVersionFor settings.capiMachineApiVersion
    resource.spec.bootstrapSpec.apiVersion
  deleteKey ("Failed to delete Machine " ++ resource.name) version (machineKey ns resource.name)
  deleteEmbedded resource.spec.bootstrapSpec ns resource.name
  deleteEmbedded resource.spec.infrastructureSpec ns resource.name

end FiveSpot.Machine
