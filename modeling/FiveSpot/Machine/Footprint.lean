import FiveSpot.Machine.Behaviour

/-!
# The quiet parts of a reconcile

The functions that read, log and annotate without touching what the runs are judged by. Each is
shown to make quiet calls only, whatever the answers are. Those whose calls are ordinary as well are
shown to be so once, for both.
-/

namespace FiveSpot.Machine

set_option autoImplicit false

open Effects Effects.Prog

/-- `x` makes only calls of one kind, whatever the answers are. -/
structure Calls {α : Type} (kind : Request → Bool) (x : Reconcile α) : Prop where
  uses : x.run.Uses fun q => kind q = true

abbrev Quietly {α : Type} (x : Reconcile α) : Prop := Calls Request.calm x

abbrev Evicting {α : Type} (client : Client) (x : Reconcile α) : Prop :=
  Calls (Request.evicts client) x

/-- A call that leaves alone what few steps touch: the finalizers, the taints of Nodes and the record of
them, the requests on Nodes, the Node of the status and the count of reclaims. -/
def Request.ordinary : Request → Bool
  | .patchFinalizers _ | .recordReclaim _ => false
  | .publish event => event.action != "RapidReReclaim"
  | .patchNode _ _ p =>
      p.taints.isNone && p.annotations.all fun (key, _) => key != reclaimRequestedAnnotation
  | .patchStatus p => p.appliedNodeTaints.isNone && p.nodeRef.isNone
  | _ => true

abbrev Ordinary {α : Type} (x : Reconcile α) : Prop := Calls Request.ordinary x

abbrev Still {α : Type} (x : Reconcile α) : Prop := Calls (fun q => q.calm && q.ordinary) x

section Rules

variable {α β : Type} {kind kind' : Request → Bool}

theorem Calls.bind {x : Reconcile α} {f : α → Reconcile β} (hx : Calls kind x)
    (hf : ∀ a, Calls kind (f a)) : Calls kind (x >>= f) :=
  ⟨uses_run_bind hx.uses fun a => (hf a).uses⟩

theorem Calls.attempt {x : Reconcile α} (hx : Calls kind x) :
    Calls kind (Prog.attempt x : Reconcile (Except ReconcilerError α)) :=
  ⟨uses_run_attempt hx.uses⟩

theorem Calls.mono {x : Reconcile α} (hx : Calls kind x)
    (hkind : ∀ q, kind q = true → kind' q = true) : Calls kind' x :=
  ⟨hx.uses.mono hkind⟩

theorem calls_pure (a : α) : Calls kind (pure a) := ⟨trivial⟩

theorem calls_throw (e : ReconcilerError) : Calls kind (throw e : Reconcile α) := ⟨trivial⟩

theorem calls_call {q : Request} (hq : kind q = true) : Calls kind (call q) :=
  ⟨(uses_run_ask q).mpr hq⟩

theorem calls_check (x : Except ReconcilerError α) : Calls kind (check x) := by
  cases x <;> exact ⟨trivial⟩

theorem calls_orKubeError (x : Except KubeError α) : Calls kind (orKubeError x) := by
  cases x <;> exact ⟨trivial⟩

theorem calls_orCapiError (context : String) (x : Except KubeError α) :
    Calls kind (orCapiError context x) := by
  cases x <;> exact ⟨trivial⟩

theorem Still.quietly {x : Reconcile α} (hx : Still x) : Quietly x :=
  hx.mono fun _ hq => ((Bool.and_eq_true _ _).mp hq).1

theorem Still.ordinary {x : Reconcile α} (hx : Still x) : Ordinary x :=
  hx.mono fun _ hq => ((Bool.and_eq_true _ _).mp hq).2

theorem calls_namespaceOf (r : ScheduledMachine) : Calls kind (namespaceOf r) := by
  unfold namespaceOf
  split
  · exact calls_pure _
  · exact calls_throw _

end Rules

theorem calls_publish {kind : Request → Bool} {event : KubeEvent} (hevent : kind (.publish event) = true) :
    Calls kind (publishBestEffort event) :=
  (calls_call hevent).bind fun _ => calls_pure _

theorem quietly_publish (event : KubeEvent) : Quietly (publishBestEffort event) := calls_publish rfl

theorem still_ensureCanCreate (ns apiVersion kind label : String) :
    Still (ensureCanCreate ns apiVersion kind label) := by
  unfold ensureCanCreate
  simp only
  refine (calls_call rfl).bind fun x => (calls_orKubeError x).bind fun status => ?_
  split
  · exact calls_pure _
  · exact calls_throw _

section Shutdown

theorem still_fetchCapiMachine (ns name : String) : Still (fetchCapiMachine ns name) := by
  refine (calls_call rfl).bind fun x => ?_
  cases x with
  | ok machine => exact calls_pure _
  | error e =>
    simp only
    split
    · exact calls_pure _
    · exact calls_throw _

section Evict

variable {kind : Request → Bool} {client : Client}

theorem calls_evictPod (hdelete : ∀ ns name, kind (.deletePod client ns name) = true)
    (podName podNs node : String) : Calls kind (evictPod client podName podNs node) := by
  refine (calls_call (hdelete _ _)).bind fun x => ?_
  cases x with
  | ok _ => exact calls_pure _
  | error e =>
    simp only
    split
    · exact calls_pure _
    · split <;> exact calls_throw _

theorem calls_evictPods (hdelete : ∀ ns name, kind (.deletePod client ns name) = true)
    (hclock : kind .instant = true) (node : String) (timeout : Nat) (start : Instant)
    (pods : List Pod) : Calls kind (evictPods client node timeout start pods) := by
  induction pods with
  | nil => exact calls_pure _
  | cons pod pods ih =>
    refine (calls_call hclock).bind fun now => ?_
    split
    · exact calls_throw _
    · exact (calls_evictPod hdelete _ _ node).bind fun _ => ih

theorem calls_drain {node : String}
    (hcordon : kind (.patchNode client node { unschedulable := some true }) = true)
    (hlist : kind (.listPods client node) = true)
    (hdelete : ∀ ns name, kind (.deletePod client ns name) = true) (hclock : kind .instant = true)
    (timeout : Nat) : Calls kind (drainNodeWithTimeout client node timeout) := by
  have hcordon : Calls kind (cordonNode client node) :=
    (calls_call hcordon).bind fun x => calls_orCapiError _ x
  refine hcordon.bind fun _ => (calls_call hlist).bind fun x => (calls_orCapiError _ x).bind fun pods => ?_
  split
  · exact calls_pure _
  · exact (calls_call hclock).bind fun start => calls_evictPods hdelete hclock node timeout start _

end Evict

theorem evicting_evictPods (client : Client) (node : String) (timeout : Nat) (start : Instant)
    (pods : List Pod) : Evicting client (evictPods client node timeout start pods) :=
  calls_evictPods (fun _ _ => beq_self_eq_true client) rfl node timeout start pods

theorem quietly_noteReclaim (r : ScheduledMachine) : Quietly (noteReclaim r) := by
  refine (calls_call rfl).bind fun now => (calls_call rfl).bind fun breach => ?_
  split
  · exact quietly_publish _
  · exact calls_pure _

end Shutdown

section Projection

theorem still_reclaimAgentProvision (client : Client) (nodeName : String)
    (commands : List String) :
    Still (reconcileReclaimAgentProvision client nodeName commands) := by
  refine (calls_call rfl).bind fun x => (calls_orKubeError x).bind fun _ => ?_
  split
  · refine (calls_call rfl).bind fun y => ?_
    cases y with
    | ok _ => exact calls_pure _
    | error e =>
      simp only
      split
      · exact calls_pure _
      · exact calls_throw _
  · exact (calls_call rfl).bind calls_orKubeError

theorem still_kataConfigDelivery (client : Client) (nodeName : String)
    (kata : Option KataConfig) : Still (reconcileKataConfigDelivery client nodeName kata) := by
  cases kata with
  | none => exact (calls_call rfl).bind fun x => (calls_orKubeError x).bind fun _ => calls_pure _
  | some kata =>
    refine (calls_call rfl).bind fun x => (calls_orKubeError x).bind fun present => ?_
    split
    · exact (calls_call rfl).bind fun y => (calls_orKubeError y).bind fun _ => calls_pure _
    · refine (calls_call rfl).bind fun y => (calls_orKubeError y).bind fun _ => ?_
      exact (calls_call rfl).bind fun z => (calls_orKubeError z).bind fun _ => calls_pure _

theorem calls_onNode {kind : Request → Bool} (hresolve : kind .resolveChild = true)
    (nodeRef : Option NodeRef) {step : Client → String → Reconcile Unit}
    (hstep : ∀ client nodeName, Calls kind (step client nodeName)) :
    Calls kind (onNode nodeRef step) := by
  cases nodeRef with
  | none => exact calls_pure _
  | some r =>
    unfold onNode
    simp only
    split
    · exact calls_pure _
    · refine (calls_call hresolve).bind fun x => ?_
      cases x with
      | error e => exact calls_pure _
      | ok client => exact (hstep client r.name).attempt.bind fun _ => calls_pure _

section Enrich

/-- A kind of calls wide enough for what is done to the Node of an active machine. -/
structure Projecting (kind : Request → Bool) : Prop where
  still : ∀ q, (q.calm && q.ordinary) = true → kind q = true
  taint : ∀ client name value taints, kind (.patchNode client name
    { annotations := [( appliedTaintsAnnotation, some value)], taints := some taints }) = true
  record : ∀ taints, kind (.patchStatus { appliedNodeTaints := some taints }) = true

namespace Projecting

variable {kind : Request → Bool} (hkind : Projecting kind)

include hkind

theorem calls_of_still {α : Type} {x : Reconcile α} (hx : Still x) : Calls kind x := hx.mono hkind.still

theorem calls_applyNodeTaints (client : Client) (nodeName : String) (plan : NodeTaintPlan) :
    Calls kind (applyNodeTaints client nodeName plan) := by
  unfold applyNodeTaints
  split
  · exact calls_pure _
  · exact (calls_call (hkind.still _ rfl)).bind fun x => (calls_orKubeError x).bind fun node =>
      (calls_call (hkind.taint _ _ _ _)).bind calls_orKubeError

theorem calls_reconcileNodeTaints (client : Client) (nodeName : String) (desired applied : List NodeTaint) :
    Calls kind (reconcileNodeTaints client nodeName desired applied) := by
  refine (calls_call (hkind.still _ rfl)).bind fun x => ?_
  cases x with
  | error e =>
    simp only
    split
    · exact calls_pure _
    · exact calls_throw _
  | ok node =>
    simp only
    split
    · exact calls_pure _
    · split
      · exact calls_pure _
      · exact (hkind.calls_applyNodeTaints client nodeName _).bind fun _ => calls_pure _

theorem calls_recordNodeTaints (desired applied : List NodeTaint) (client : Client) (nodeName : String) :
    Calls kind (recordNodeTaints desired applied client nodeName) := by
  refine (hkind.calls_reconcileNodeTaints client nodeName _ _).bind fun outcome => ?_
  split
  · split
    · exact calls_pure _
    · exact (calls_call (hkind.record _)).bind calls_orKubeError
  · exact calls_pure _

theorem calls_reconcileNodeTaintsBestEffort (r : ScheduledMachine) (nodeRef : Option NodeRef) :
    Calls kind (reconcileNodeTaintsBestEffort r nodeRef) := by
  unfold reconcileNodeTaintsBestEffort
  simp only
  split
  · exact calls_pure _
  · split
    · exact calls_pure _
    · exact calls_onNode (hkind.still _ rfl) nodeRef (hkind.calls_recordNodeTaints _ _)

theorem calls_projections (r : ScheduledMachine) (nodeRef : Option NodeRef) :
    Calls kind (do
      provisionReclaimAgentBestEffort r nodeRef
      reconcileNodeTaintsBestEffort r nodeRef
      provisionKataConfigBestEffort r nodeRef) := by
  refine (calls_onNode (hkind.still _ rfl) _ fun client nodeName =>
    hkind.calls_of_still (still_reclaimAgentProvision client nodeName _)).bind fun _ => ?_
  refine (hkind.calls_reconcileNodeTaintsBestEffort r _).bind fun _ => ?_
  exact calls_onNode (hkind.still _ rfl) _ fun client nodeName =>
    (hkind.calls_of_still (still_kataConfigDelivery client nodeName _)).bind fun _ => calls_pure _

end Projecting

/-- The same with the record of what the Machine refers to. -/
structure Enriching (kind : Request → Bool) : Prop extends Projecting kind where
  refs : ∀ providerId nodeRef,
    kind (.patchStatus { providerId := providerId, nodeRef := nodeRef }) = true

namespace Enriching

variable {kind : Request → Bool} (hkind : Enriching kind)

include hkind

theorem calls_patchMachineRefsStatus (providerId : Option String) (nodeRef : Option NodeRef) :
    Calls kind (patchMachineRefsStatus providerId nodeRef) := by
  unfold patchMachineRefsStatus
  split
  · exact calls_pure _
  · exact (calls_call (hkind.refs _ _)).bind calls_orKubeError

theorem calls_enrichActive (r : ScheduledMachine) (ns : String) : Calls kind (enrichActive r ns) := by
  refine (hkind.calls_of_still (still_fetchCapiMachine ns r.name)).attempt.bind fun fetched => ?_
  split
  · exact (hkind.calls_patchMachineRefsStatus _ _).attempt.bind fun _ => hkind.calls_projections r _
  · exact calls_pure _

end Enriching

theorem enriching_calm : Enriching Request.calm where
  still _ hq := ((Bool.and_eq_true _ _).mp hq).1
  taint _ _ _ _ := rfl
  record _ := rfl
  refs _ _ := rfl

theorem quietly_recordNodeTaints (desired applied : List NodeTaint) (client : Client)
    (nodeName : String) : Quietly (recordNodeTaints desired applied client nodeName) :=
  enriching_calm.calls_recordNodeTaints desired applied client nodeName

theorem quietly_enrichActive (r : ScheduledMachine) (ns : String) : Quietly (enrichActive r ns) :=
  enriching_calm.calls_enrichActive r ns

end Enrich

end Projection

end FiveSpot.Machine
