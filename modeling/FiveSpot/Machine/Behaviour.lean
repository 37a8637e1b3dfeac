import FiveSpot.Effects.Invariant
import FiveSpot.Machine.Reconcile

/-!
# What one reconcile does

An abstract description of a reconcile, in terms of the resource it was started on and of the calls
it has made so far: which objects it may create and delete, and under which circumstances it records
which phase. `Permitted` has one constructor for each kind of act. The reconciler's own code is shown
to keep to it in `Machine/Conformance.lean`; the properties of whole runs use only this description.
-/

namespace FiveSpot.Machine

set_option autoImplicit false

open Effects

abbrev Log := History Request Response

namespace Request

/-- A call that leaves the objects, the phase, the conditions and the finalizers alone. -/
def quiet : Request → Bool
  | .info .creatingCapiResources | .info .gracePeriodElapsed => false
  | .patchFinalizers _ | .patchDisableSchedule | .create _ _ _ | .delete _ _ => false
  | .patchStatus p => p.phase.isNone && p.conditions.isNone
  | _ => true

def drains : Request → Bool
  | .patchNode _ _ p => p.unschedulable.isSome
  | .listPods _ _ | .deletePod _ _ _ => true
  | _ => false

def clears : Request → Bool
  | .patchNode _ _ p =>
      p.annotations.any fun (key, value) => key == reclaimRequestedAnnotation && value.isNone
  | _ => false

def reports : Request → Bool
  | .info (.scheduleEvaluated _) => true
  | .patchStatus p => p.spotSchedule.isSome
  | _ => false

def calm (q : Request) : Bool := q.quiet && !(q.drains || q.clears || q.reports)

theorem quiet_of_calm {q : Request} (hq : q.calm = true) : q.quiet = true :=
  ((Bool.and_eq_true _ _).mp hq).1

theorem drains_of_calm {q : Request} (hq : q.calm = true) : q.drains = false := by
  simp only [calm, Bool.and_eq_true, Bool.not_eq_true', Bool.or_eq_false_iff] at hq
  exact hq.2.1.1

theorem reports_of_calm {q : Request} (hq : q.calm = true) : q.reports = false := by
  simp only [calm, Bool.and_eq_true, Bool.not_eq_true', Bool.or_eq_false_iff] at hq
  exact hq.2.2

def evicts (client : Client) : Request → Bool
  | .deletePod client' _ _ => client' == client
  | q => q.calm

theorem calm_or_deletePod {client : Client} {q : Request} (hq : q.evicts client = true) :
    q.calm = true ∨ ∃ ns name, q = .deletePod client ns name := by
  cases q <;> simp_all [evicts]

theorem quiet_of_evicts {client : Client} {q : Request} (hq : q.evicts client = true) :
    q.quiet = true := by
  rcases calm_or_deletePod hq with hq | ⟨ns, name, rfl⟩
  · exact quiet_of_calm hq
  · rfl

def isCreate : Request → Bool
  | .create _ _ _ => true
  | _ => false

def setsPhase : Request → Bool
  | .patchStatus p => p.phase.isSome
  | _ => false

/-- A call that creates no object, records no phase and leaves the schedule enabled. -/
def steady : Request → Bool
  | .create _ _ _ | .patchDisableSchedule => false
  | .patchStatus p => p.phase.isNone
  | _ => true

theorem isCreate_of_steady {q : Request} (hq : q.steady = true) : q.isCreate = false := by
  cases q <;> simp_all [steady, isCreate]

theorem setsPhase_of_steady {q : Request} (hq : q.steady = true) : q.setsPhase = false := by
  cases q <;> simp_all [steady, setsPhase]

theorem steady_of_quiet {q : Request} (hq : q.quiet = true) : q.steady = true := by
  cases q <;> simp_all [quiet, steady]

end Request

/-- The key of an embedded object; without an apiVersion and a kind there is none. -/
def embeddedKey (embedded : EmbeddedResource) (ns name : String) : Option ObjectKey :=
  match embedded.apiVersion, embedded.kind with
  | some apiVersion, some kind => some (objectKey apiVersion kind ns name)
  | _, _ => none

/-- The objects that belong to a resource: Machine, bootstrap and infrastructure. -/
def ownKeys (r : ScheduledMachine) : List ObjectKey :=
  r.ns.elim [] fun ns => machineKey ns r.name ::
    ((embeddedKey r.spec.bootstrapSpec ns r.name).toList ++
      (embeddedKey r.spec.infrastructureSpec ns r.name).toList)

/-- A missing or unknown phase is handled as pending. -/
def isPending : Option Phase → Bool
  | none | some .pending | some (.other _) => true
  | _ => false

def deleteDone : Except KubeError Unit → Bool
  | .ok () => true
  | .error e => e.isNotFound

def Deleted (h : Log) (k : ObjectKey) : Prop :=
  ∃ (version : String) (x : Except KubeError Unit), ⟨.delete version k, x⟩ ∈ h ∧ deleteDone x = true

def Removed (r : ScheduledMachine) (h : Log) : Prop := ∀ k ∈ ownKeys r, Deleted h k

def createDone : Except KubeError Unit → Bool
  | .ok () => true
  | .error e => e.isAlreadyExists

def Created (h : Log) (k : ObjectKey) : Prop :=
  ∃ (version : String) (body : Json) (x : Except KubeError Unit),
    ⟨.create version k body, x⟩ ∈ h ∧ createDone x = true

def Made (r : ScheduledMachine) (h : Log) : Prop := ∀ k ∈ ownKeys r, Created h k

def creatableGroups : List String :=
  capiGroup :: (allowedBootstrapApiGroups ++ allowedInfrastructureApiGroups)

/-- What the discovery of the provider's kind or the read of the provider came back with. -/
inductive Heard (r : ScheduledMachine) (h : Log) : SpotScheduleVerdict → Prop where
  | noKind {group version kind : String} {e : KubeError} {message : String} :
      ⟨.pinnedKind group version kind, .error e⟩ ∈ h →
      Heard r h (.unresolved reasonSpotScheduleProviderCrdNotInstalled message)
  | noObject {ns name message : String} :
      ⟨.getProvider ns name, .ok none⟩ ∈ h →
      Heard r h (.unresolved reasonSpotScheduleProviderNotFound message)
  | object {ns name : String} {object : Json} :
      ⟨.getProvider ns name, .ok (some object)⟩ ∈ h →
      Heard r h (verdictFromStatus (object.get? "status"))

/-- The schedule as composed from what was heard and the stored value. -/
def Composed (r : ScheduledMachine) (h : Log) (active : Bool) : Prop :=
  ∃ v, Heard r h v ∧ composeShouldBeActive v r.lastKnownSpotActive = active

/-- The Node behind the resource was read and carries the reclaim request. -/
def Reclaiming (r : ScheduledMachine) (h : Log) : Prop :=
  ∃ nodeRef client node, r.nodeRef = some nodeRef ∧ nodeRef.name.isEmpty = false ∧
    ⟨.getNode client nodeRef.name, .ok node⟩ ∈ h ∧ (nodeReclaimRequest node).isSome

def Recorded (h : Log) (phase : Phase) : Prop :=
  ∃ p : StatusPatch, ⟨.patchStatus p, .ok ()⟩ ∈ h ∧ p.phase = some phase

/-- Why a Node is taken to be the one behind the resource. -/
inductive Bound (r : ScheduledMachine) (h : Log) : String → Prop where
  | reclaimed {nodeRef : NodeRef} {client : Client} {node : Node} : r.nodeRef = some nodeRef →
      ⟨.getNode client nodeRef.name, .ok node⟩ ∈ h → (nodeReclaimRequest node).isSome →
      Bound r h nodeRef.name
  | machine {ns : String} {machine : Json} {nodeRef : NodeRef} : r.ns = some ns →
      ⟨.get (machineKey ns r.name), .ok machine⟩ ∈ h →
      (extractMachineRefs machine).2 = some nodeRef → Bound r h nodeRef.name

/-- Nothing to reclaim: no Node is known, it is gone, or it carries no request. -/
def NotReclaiming (r : ScheduledMachine) (h : Log) : Prop :=
  (∀ nodeRef, r.nodeRef = some nodeRef → nodeRef.name.isEmpty = true) ∨
    ∃ nodeRef client x, r.nodeRef = some nodeRef ∧ ⟨.getNode client nodeRef.name, x⟩ ∈ h ∧
      match x with
      | .ok node => nodeReclaimRequest node = none
      | .error e => e.isNotFound = true

/-- The grace period is over by a reading of the clock, or none was recorded. -/
def GraceOver (r : ScheduledMachine) (h : Log) : Prop :=
  recordedGracePeriod r = .ok none ∨
    ∃ start timeout now, recordedGracePeriod r = .ok (some (start, timeout)) ∧
      ⟨.now, now⟩ ∈ h ∧ gracePeriodElapsed start now timeout = true

/-- The resource is neither being deleted nor switched off for good. -/
structure Governed (r : ScheduledMachine) : Prop where
  live : r.deletionTimestamp = none
  finalizer : hasFinalizer r = true
  killOff : r.spec.killSwitch = false

structure Killed (r : ScheduledMachine) : Prop where
  live : r.deletionTimestamp = none
  finalizer : hasFinalizer r = true
  killOn : r.spec.killSwitch = true

structure Adding (r : ScheduledMachine) (h : Log) : Prop where
  governed : Governed r
  named : r.ns.isSome = true
  pending : isPending r.phase = true
  enabled : r.spec.enabled = true
  open_ : Composed r h true

/-- Why a machine is drained and taken away. -/
inductive Removing (r : ScheduledMachine) (h : Log) : Prop where
  | deleted : r.deletionTimestamp.isSome = true → isRunning r.phase = true → Removing r h
  | killed : Killed r → isRunning r.phase = true → Removing r h
  | reclaimed : Governed r → Reclaiming r h → Recorded h .emergencyRemove → Removing r h
  | elapsed : r.phase = some .shuttingDown → ⟨.info .gracePeriodElapsed, ()⟩ ∈ h → Removing r h

/-- What an answer says about the provider: nothing, that it is unresolved, or its value. -/
def hearsActive : Sigma Response → Option (Option Bool)
  | ⟨.pinnedKind _ _ _, .error _⟩ => some none
  | ⟨.getProvider _ _, .ok none⟩ => some none
  | ⟨.getProvider _ _, .ok (some object)⟩ =>
      some (verdictFromStatus (object.get? "status")).isActive?
  | _ => none

/-- The latest that was heard of the provider. -/
def heardActive (h : Log) : Option (Option Bool) := h.findSome? hearsActive

def readsClock : Sigma Response → Option Instant
  | ⟨.now, now⟩ => some now
  | _ => none

def clockReading (h : Log) : Option Instant := h.findSome? readsClock

def transitions (active held : Option Bool) : Bool := active.any fun now => held != some now

def Unreported (h : Log) : Prop := ∀ x ∈ h, x.1.reports = false

/-- The value of `status.spotSchedule.active` is stored, by a patch or because it was there. -/
def Stored (r : ScheduledMachine) (h : Log) (active : Option Bool) : Prop :=
  (∃ patch : SpotSchedulePatch, patch.active = active.or r.lastKnownSpotActive ∧
    ⟨.patchStatus { spotSchedule := some patch }, .ok ()⟩ ∈ h) ∨
  (Unreported h ∧ active.or r.lastKnownSpotActive = r.lastKnownSpotActive)

/-- The reasons for the quiet calls that are not calm. -/
inductive Warranted (r : ScheduledMachine) (h : Log) : Request → Prop where
  | patchNode {client : Client} {node : String} {p : NodePatch} : Bound r h node →
      Warranted r h (.patchNode client node p)
  | listPods {client : Client} {node : String} : Bound r h node →
      Warranted r h (.listPods client node)
  | deletePod {client : Client} {ns name node : String} {pods : List Pod} : Bound r h node →
      ⟨.listPods client node, .ok pods⟩ ∈ h → Warranted r h (.deletePod client ns name)
  | mirror {active : Option Bool} {patch : SpotSchedulePatch} : Unreported h →
      heardActive h = some active →
      patch.active = active.or r.lastKnownSpotActive →
      (if transitions active r.lastKnownSpotActive then
        ∃ now, clockReading h = some now ∧ patch.lastTransitionTime = some (.at now)
      else patch.lastTransitionTime = none) →
      Warranted r h (.patchStatus { spotSchedule := some patch })
  | evaluated {active : Option Bool} : heardActive h = some active → Stored r h active →
      Warranted r h (.info (.scheduleEvaluated ((active.or r.lastKnownSpotActive).getD false)))

def Steady (h : Log) : Prop := ∀ x ∈ h, x.1.steady = true

def NoPhase (h : Log) : Prop := ∀ x ∈ h, x.1.setsPhase = false

def NoCreate (h : Log) : Prop := ∀ x ∈ h, x.1.isCreate = false

/-- The phases a reconcile may record, with the reason it gives. -/
inductive Moves (r : ScheduledMachine) (h : Log) : Phase → String → Prop where
  | terminated : Killed r → r.phase ≠ some .terminated → Steady h →
      (isRunning r.phase = true → Removed r h) → Moves r h .terminated reasonKillSwitch
  | emergencyRemove : Governed r → Reclaiming r h → Steady h →
      Moves r h .emergencyRemove reasonEmergencyReclaim
  | reclaimed : Governed r → Reclaiming r h → NoCreate h → ⟨.patchDisableSchedule, .ok ()⟩ ∈ h →
      Moves r h .disabled reasonScheduleDisabled
  | recovered : Governed r → r.phase = some .emergencyRemove → NotReclaiming r h → Steady h →
      Moves r h .disabled reasonScheduleDisabled
  | disabled : Governed r → isPending r.phase = true → r.spec.enabled = false → Steady h →
      Moves r h .disabled reasonScheduleDisabled
  | closed : Governed r → isPending r.phase = true → r.spec.enabled = true → Composed r h false →
      Steady h → Moves r h .inactive reasonScheduleInactive
  | removed : Governed r → r.phase = some .shuttingDown → Removed r h → Steady h →
      Moves r h .inactive reasonMachineDeleted
  | addFailed : Adding r h → NoPhase h → Moves r h .error "MachineCreationFailed"
  | added : Adding r h → NoPhase h → Made r h → Moves r h .active reasonMachineCreated
  | removeFailed : Governed r → r.phase = some .shuttingDown → Steady h →
      Moves r h .error "MachineDeletionFailed"
  | opened : Governed r → r.phase = some .inactive → r.spec.enabled = true → Composed r h true →
      Steady h → Moves r h .pending reasonScheduleActive
  | reenabled : Governed r → r.phase = some .disabled → r.spec.enabled = true → Steady h →
      Moves r h .pending reasonScheduleActive
  | shutdownDisabled : Governed r → r.phase = some .active → r.spec.enabled = false → Steady h →
      Moves r h .shuttingDown reasonScheduleDisabled
  | shutdownClosed : Governed r → r.phase = some .active → r.spec.enabled = true →
      Composed r h false → Steady h → Moves r h .shuttingDown reasonGracePeriod

/-- What a reconcile of `r` may call after the calls in `h`. -/
inductive Permitted (r : ScheduledMachine) (h : Log) : Request → Prop where
  | quiet {q : Request} : q.quiet = true → (q.drains = true → Removing r h) →
      (q.calm = false → Warranted r h q) → Permitted r h q
  | addFinalizer {fs : List String} : finalizerScheduledMachine ∈ fs →
      Permitted r h (.patchFinalizers fs)
  | dropFinalizer {fs : List String} : finalizerScheduledMachine ∉ fs →
      r.deletionTimestamp.isSome = true →
      (⟨.timerFired, true⟩ ∈ h ∨ Steady h ∧ (isRunning r.phase = true → Removed r h)) →
      Permitted r h (.patchFinalizers fs)
  | creating : Adding r h → Steady h → Permitted r h (.info .creatingCapiResources)
  | create {version : String} {k : ObjectKey} {body : Json} : Adding r h → NoPhase h →
      k ∈ ownKeys r → k.group ∈ creatableGroups → Permitted r h (.create version k body)
  | elapsed : Governed r → r.phase = some .shuttingDown → GraceOver r h → Steady h →
      Permitted r h (.info .gracePeriodElapsed)
  | delete {version : String} {k : ObjectKey} : k ∈ ownKeys r → NoCreate h → Removing r h →
      Permitted r h (.delete version k)
  | disableSchedule : Governed r → Reclaiming r h → Removed r h → NoCreate h →
      Permitted r h .patchDisableSchedule
  | move {now : Instant} {phase : Phase} {reason message : String} {inSchedule : Bool} :
      ⟨.now, now⟩ ∈ h → Moves r h phase reason →
      Permitted r h (.patchStatus (phasePatch now phase reason message inSchedule))

theorem Permitted.calm {r : ScheduledMachine} {h : Log} {q : Request} (hq : q.calm = true) :
    Permitted r h q := by
  refine .quiet (Request.quiet_of_calm hq) (fun h => ?_) fun h => ?_
  · simp [Request.drains_of_calm hq] at h
  · simp [hq] at h

section Stability

variable {r : ScheduledMachine} {h h' : Log}

abbrev Quieter (h h' : Log) : Prop := History.Grown (fun q => q.quiet = true) h h'

abbrev Calmer (h h' : Log) : Prop := History.Grown (fun q => q.calm = true) h h'

abbrev Unphased (h h' : Log) : Prop := History.Grown (fun q => q.setsPhase = false) h h'

abbrev Steadier (h h' : Log) : Prop := History.Grown (fun q => q.steady = true) h h'

/-- `h'` is `h` with quiet calls put in anywhere. -/
structure Padded (h h' : Log) : Prop where
  keeps : ∀ x ∈ h, x ∈ h'
  quiet : ∀ x ∈ h', x ∈ h ∨ x.1.quiet = true

theorem Quieter.padded (hh : Quieter h h') : Padded h h' := by
  obtain ⟨l, rfl, hl⟩ := hh
  refine ⟨fun x hx => List.mem_append_right l hx, fun x hx => ?_⟩
  rcases List.mem_append.mp hx with hx | hx
  · exact Or.inr (hl x hx)
  · exact Or.inl hx

theorem Steady.after (hs : Steady h) (hh : Steadier h h') : Steady h' := hh.forall hs

theorem Steady.noPhase (hs : Steady h) : NoPhase h :=
  fun x hx => Request.setsPhase_of_steady (hs x hx)

theorem Steady.noCreate (hs : Steady h) : NoCreate h :=
  fun x hx => Request.isCreate_of_steady (hs x hx)

theorem Composed.after {active : Bool} (hc : Composed r h active) (hh : ∀ x ∈ h, x ∈ h') :
    Composed r h' active := by
  obtain ⟨v, hv, hcompose⟩ := hc
  refine ⟨v, ?_, hcompose⟩
  cases hv with
  | noKind hmem => exact .noKind (hh _ hmem)
  | noObject hmem => exact .noObject (hh _ hmem)
  | object hmem => exact .object (hh _ hmem)

theorem Adding.after (ha : Adding r h) (hh : ∀ x ∈ h, x ∈ h') : Adding r h' :=
  ⟨ha.governed, ha.named, ha.pending, ha.enabled, ha.open_.after hh⟩

theorem Removed.after (hr : Removed r h) (hh : ∀ x ∈ h, x ∈ h') : Removed r h' := by
  intro k hk
  obtain ⟨version, x, hx, hdone⟩ := hr k hk
  exact ⟨version, x, hh _ hx, hdone⟩

theorem Reclaiming.after (hr : Reclaiming r h) (hh : ∀ x ∈ h, x ∈ h') : Reclaiming r h' := by
  obtain ⟨nodeRef, client, node, href, hname, hmem, hrequest⟩ := hr
  exact ⟨nodeRef, client, node, href, hname, hh _ hmem, hrequest⟩

theorem Recorded.after {phase : Phase} (ha : Recorded h phase) (hh : ∀ x ∈ h, x ∈ h') :
    Recorded h' phase := by
  obtain ⟨p, hp, hphase⟩ := ha
  exact ⟨p, hh _ hp, hphase⟩

theorem Created.after {k : ObjectKey} (hc : Created h k) (hh : ∀ x ∈ h, x ∈ h') : Created h' k := by
  obtain ⟨version, body, x, hx, hdone⟩ := hc
  exact ⟨version, body, x, hh _ hx, hdone⟩

theorem Made.after (hm : Made r h) (hh : ∀ x ∈ h, x ∈ h') : Made r h' :=
  fun k hk => (hm k hk).after hh

theorem Bound.after {node : String} (hb : Bound r h node) (hh : ∀ x ∈ h, x ∈ h') :
    Bound r h' node := by
  cases hb with
  | reclaimed href hmem hrequest => exact .reclaimed href (hh _ hmem) hrequest
  | machine hns hmem href => exact .machine hns (hh _ hmem) href

theorem Removing.after (hr : Removing r h) (hh : ∀ x ∈ h, x ∈ h') : Removing r h' := by
  cases hr with
  | deleted hd hrun => exact .deleted hd hrun
  | killed hk hrun => exact .killed hk hrun
  | reclaimed hg hr ha => exact .reclaimed hg (hr.after hh) (ha.after hh)
  | elapsed hphase hmem => exact .elapsed hphase (hh _ hmem)

theorem NotReclaiming.after (hr : NotReclaiming r h) (hh : ∀ x ∈ h, x ∈ h') :
    NotReclaiming r h' := by
  rcases hr with hnone | ⟨nodeRef, client, x, href, hmem, hx⟩
  · exact Or.inl hnone
  · exact Or.inr ⟨nodeRef, client, x, href, hh _ hmem, hx⟩

theorem Deleted.after {k : ObjectKey} (hd : Deleted h k) (hh : ∀ x ∈ h, x ∈ h') : Deleted h' k := by
  obtain ⟨version, x, hx, hdone⟩ := hd
  exact ⟨version, x, hh _ hx, hdone⟩

theorem NoCreate.after (hn : NoCreate h) (hh : Steadier h h') : NoCreate h' := by
  have hgrown : History.Grown (fun q => q.isCreate = false) h h' :=
    hh.mono fun q hq => Request.isCreate_of_steady hq
  exact hgrown.forall hn

theorem Quieter.unphased (hh : Quieter h h') : Unphased h h' :=
  hh.mono fun _ hq => Request.setsPhase_of_steady (Request.steady_of_quiet hq)

theorem NoPhase.after (hn : NoPhase h) (hh : Unphased h h') : NoPhase h' := hh.forall hn

theorem Calmer.quieter (hh : Calmer h h') : Quieter h h' := hh.mono fun _ => Request.quiet_of_calm

theorem Unreported.after (hu : Unreported h) (hh : Calmer h h') : Unreported h' := by
  have hgrown : History.Grown (fun q => q.reports = false) h h' :=
    hh.mono fun _ => Request.reports_of_calm
  exact hgrown.forall hu

theorem Padded.steady (hp : Padded h h') (hs : Steady h) : Steady h' := by
  intro x hx
  rcases hp.quiet x hx with hx | hx
  · exact hs x hx
  · exact Request.steady_of_quiet hx

theorem Padded.noPhase (hp : Padded h h') (hn : NoPhase h) : NoPhase h' := by
  intro x hx
  rcases hp.quiet x hx with hx | hx
  · exact hn x hx
  · exact Request.setsPhase_of_steady (Request.steady_of_quiet hx)

theorem Padded.noCreate (hp : Padded h h') (hn : NoCreate h) : NoCreate h' := by
  intro x hx
  rcases hp.quiet x hx with hx | hx
  · exact hn x hx
  · exact Request.isCreate_of_steady (Request.steady_of_quiet hx)

theorem Moves.pad {phase : Phase} {reason : String} (hm : Moves r h phase reason)
    (hp : Padded h h') : Moves r h' phase reason := by
  cases hm with
  | terminated hk ht hs hr =>
    exact .terminated hk ht (hp.steady hs) fun hrun => (hr hrun).after hp.keeps
  | emergencyRemove hg hr hs => exact .emergencyRemove hg (hr.after hp.keeps) (hp.steady hs)
  | reclaimed hg hr hn hd =>
    exact .reclaimed hg (hr.after hp.keeps) (hp.noCreate hn) (hp.keeps _ hd)
  | recovered hg ht hr hs => exact .recovered hg ht (hr.after hp.keeps) (hp.steady hs)
  | disabled hg ht he hs => exact .disabled hg ht he (hp.steady hs)
  | closed hg ht he hc hs => exact .closed hg ht he (hc.after hp.keeps) (hp.steady hs)
  | removed hg ht hr hs => exact .removed hg ht (hr.after hp.keeps) (hp.steady hs)
  | addFailed ha hn => exact .addFailed (ha.after hp.keeps) (hp.noPhase hn)
  | added ha hn hm => exact .added (ha.after hp.keeps) (hp.noPhase hn) (hm.after hp.keeps)
  | removeFailed hg ht hs => exact .removeFailed hg ht (hp.steady hs)
  | opened hg ht he hc hs => exact .opened hg ht he (hc.after hp.keeps) (hp.steady hs)
  | reenabled hg ht he hs => exact .reenabled hg ht he (hp.steady hs)
  | shutdownDisabled hg ht he hs => exact .shutdownDisabled hg ht he (hp.steady hs)
  | shutdownClosed hg ht he hc hs => exact .shutdownClosed hg ht he (hc.after hp.keeps) (hp.steady hs)

theorem GraceOver.after (hg : GraceOver r h) (hh : ∀ x ∈ h, x ∈ h') : GraceOver r h' := by
  rcases hg with hnone | ⟨start, timeout, now, hrec, hmem, hover⟩
  · exact Or.inl hnone
  · exact Or.inr ⟨start, timeout, now, hrec, hh _ hmem, hover⟩

/-- `h'` is `h` with a look at the timer after each of its latest calls. -/
inductive Ticked : Log → Log → Prop where
  | refl (h : Log) : Ticked h h
  | tick {h h' : Log} {q : Request} {x : Response q} {fired : Bool} : Ticked h h' →
      Ticked (⟨q, x⟩ :: h) (⟨.timerFired, fired⟩ :: ⟨q, x⟩ :: h')

theorem Ticked.padded (ht : Ticked h h') : Padded h h' := by
  induction ht with
  | refl h => exact ⟨fun _ hx => hx, fun _ hx => Or.inl hx⟩
  | tick _ ih =>
    refine ⟨fun y hy => ?_, fun y hy => ?_⟩
    · rcases List.mem_cons.mp hy with rfl | hy
      · exact List.mem_cons_of_mem _ List.mem_cons_self
      · exact List.mem_cons_of_mem _ (List.mem_cons_of_mem _ (ih.keeps y hy))
    · rcases List.mem_cons.mp hy with rfl | hy
      · exact Or.inr rfl
      · rcases List.mem_cons.mp hy with rfl | hy
        · exact Or.inl List.mem_cons_self
        · exact (ih.quiet y hy).imp (List.mem_cons_of_mem _) id

theorem Ticked.findSome?_eq {α : Type} {f : Sigma Response → Option α} (ht : Ticked h h')
    (hf : ∀ fired, f ⟨.timerFired, fired⟩ = none) : h'.findSome? f = h.findSome? f := by
  induction ht with
  | refl h => rfl
  | tick _ ih => rw [List.findSome?_cons, hf, List.findSome?_cons, List.findSome?_cons, ih]

theorem Unreported.tick (hu : Unreported h) (ht : Ticked h h') : Unreported h' := by
  induction ht with
  | refl h => exact hu
  | tick _ ih =>
    intro y hy
    rcases List.mem_cons.mp hy with rfl | hy
    · rfl
    · rcases List.mem_cons.mp hy with rfl | hy
      · exact hu _ List.mem_cons_self
      · exact ih (fun x hx => hu x (List.mem_cons_of_mem _ hx)) y hy

theorem Warranted.tick {q : Request} (hq : Warranted r h q) (ht : Ticked h h') :
    Warranted r h' q := by
  have hheard : heardActive h' = heardActive h := ht.findSome?_eq fun _ => rfl
  have hclock : clockReading h' = clockReading h := ht.findSome?_eq fun _ => rfl
  cases hq with
  | patchNode hb => exact .patchNode (hb.after ht.padded.keeps)
  | listPods hb => exact .listPods (hb.after ht.padded.keeps)
  | deletePod hb hmem => exact .deletePod (hb.after ht.padded.keeps) (ht.padded.keeps _ hmem)
  | mirror hu ha hactive htime =>
    exact .mirror (hu.tick ht) (hheard.trans ha) hactive (hclock ▸ htime)
  | evaluated ha hs =>
    refine .evaluated (hheard.trans ha) (hs.imp (fun hp => ?_) fun hu => ⟨hu.1.tick ht, hu.2⟩)
    obtain ⟨patch, hpatch, hmem⟩ := hp
    exact ⟨patch, hpatch, ht.padded.keeps _ hmem⟩

theorem Permitted.tick {q : Request} (hq : Permitted r h q) (ht : Ticked h h') :
    Permitted r h' q := by
  have hp := ht.padded
  cases hq with
  | quiet hq hd hw => exact .quiet hq (fun h => (hd h).after hp.keeps) fun h => (hw h).tick ht
  | addFinalizer hf => exact .addFinalizer hf
  | dropFinalizer hf hd hc =>
    refine .dropFinalizer hf hd ?_
    rcases hc with ht | ⟨hs, hr⟩
    · exact Or.inl (hp.keeps _ ht)
    · exact Or.inr ⟨hp.steady hs, fun hrun => (hr hrun).after hp.keeps⟩
  | creating ha hs => exact .creating (ha.after hp.keeps) (hp.steady hs)
  | create ha hn hk hgroup => exact .create (ha.after hp.keeps) (hp.noPhase hn) hk hgroup
  | elapsed hg ht ho hs => exact .elapsed hg ht (ho.after hp.keeps) (hp.steady hs)
  | delete hk hn hr => exact .delete hk (hp.noCreate hn) (hr.after hp.keeps)
  | disableSchedule hg hr hrem hn =>
    exact .disableSchedule hg (hr.after hp.keeps) (hrem.after hp.keeps) (hp.noCreate hn)
  | move hnow hm => exact .move (hp.keeps _ hnow) (hm.pad hp)

end Stability

end FiveSpot.Machine
