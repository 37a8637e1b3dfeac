import FiveSpot.Machine.Footprint

/-!
# Reconciles in good circumstances

What a reconcile of a sound resource does when every call is answered well: it does not fail, and it
records the one phase that follows in the life cycle.
-/

namespace FiveSpot.Machine

set_option autoImplicit false

open Effects Effects.Prog

namespace Request

def silent : Request → Bool
  | .patchFinalizers _ => false
  | .patchStatus p => p.phase.isNone
  | _ => true

theorem silent_of_quiet {q : Request} (hq : q.quiet = true) : q.silent = true := by
  cases q <;> simp_all [quiet, silent]

end Request

/-- A grace period that is being waited for is over at `now`. -/
def graceDone (r : ScheduledMachine) (now : Instant) : Bool :=
  r.phase != some .shuttingDown ||
    match recordedGracePeriod r with
    | .ok none => true
    | .ok (some (start, timeout)) => gracePeriodElapsed start now timeout
    | .error _ => false

def saysActive (object : Json) : Bool :=
  (verdictFromStatus (object.get? "status")).isActive? == some true

/-- The answers of a cluster in which all is well. The calls left out may be answered in any way. -/
def Good (w : World) : (q : Request) → Response q → Prop
  | .isLeader, leader => leader = true
  | .now, now => graceDone w.machine now = true
  | .pinnedKind _ _ _, x => x = .ok ()
  | .getProvider _ _, x => ∃ object, x = .ok (some object) ∧ saysActive object = true
  | .resolveChild, x => ∃ client, x = .ok client
  | .accessReview _ _ _ _, x => ∃ status : AccessStatus, x = .ok status ∧ status.allowed = true
  | .create _ _ _, x => x = .ok () ∨ ∃ e : KubeError, x = .error e ∧ e.isAlreadyExists = true
  | .delete _ _, x => deleteDone x = true
  | .get _, x => (∃ object, x = .ok object) ∨ ∃ e : KubeError, x = .error e ∧ e.isNotFound = true
  | .getNode _ _, x => (∃ node, x = .ok node ∧ nodeReclaimRequest node = none) ∨
      ∃ e : KubeError, x = .error e ∧ e.isNotFound = true
  | .patchStatus _, x => x = .ok ()
  | .patchFinalizers _, x => x = .ok ()
  | _, _ => True

/-- A resource this instance is in charge of, wanted, and with a specification that passes every
check. -/
structure Sound (w : World) : Prop where
  ns : w.machine.ns.isSome = true
  owned : ∀ ns, w.machine.ns = some ns → shouldProcessResource w.machine.name ns
    w.machine.spec.priority w.settings.instanceCount w.settings.instanceId = true
  live : w.machine.deletionTimestamp = none
  killOff : w.machine.spec.killSwitch = false
  enabled : w.machine.spec.enabled = true
  clusterName : validateClusterName w.machine.spec.clusterName = .ok ()
  killIfCommands : validateKillIfCommands w.machine.spec.killIfCommands = .ok ()
  schedule : validateScheduleRef w.machine.spec.schedule = .ok ()
  bootstrap : ∃ apiVersion kind, w.machine.spec.bootstrapSpec.apiVersion = some apiVersion ∧
    w.machine.spec.bootstrapSpec.kind = some kind ∧
    validateApiGroup apiVersion allowedBootstrapApiGroups "bootstrap" = .ok ()
  infrastructure : ∃ apiVersion kind,
    w.machine.spec.infrastructureSpec.apiVersion = some apiVersion ∧
    w.machine.spec.infrastructureSpec.kind = some kind ∧
    validateApiGroup apiVersion allowedInfrastructureApiGroups "infrastructure" = .ok ()
  template : validateTemplate w.machine.spec.machineTemplate = .ok ()
  bootstrapMetadata :
    validateEmbeddedMetadata w.machine.spec.bootstrapSpec "spec.bootstrapSpec" = .ok ()
  infrastructureMetadata :
    validateEmbeddedMetadata w.machine.spec.infrastructureSpec "spec.infrastructureSpec" = .ok ()
  uid : w.machine.uid.isSome = true
  drainTimeout : ∃ timeout, parseDuration w.machine.spec.nodeDrainTimeout = .ok timeout
  grace : graceDone w.machine w.clock = true

variable {α β : Type} {w : World}

/-- `x` returns a value with `Q` and records nothing. -/
structure Succeeds (w : World) (x : Reconcile α) (Q : α → Prop) : Prop where
  meets : ∀ h, x.run.Meets (Good w) (fun _ q => q.silent = true)
    (Outcome (fun a _ => Q a) fun _ _ => False) h

section Rules

variable {x : Reconcile α} {f : α → Reconcile β} {Q : α → Prop} {Q' : β → Prop}

theorem Succeeds.bind (hx : Succeeds w x Q) (hf : ∀ a, Q a → Succeeds w (f a) Q') :
    Succeeds w (x >>= f) Q' :=
  ⟨fun h => meets_seq (hx.meets h) (fun a h' ha => (hf a ha).meets h') fun _ _ hF => hF⟩

theorem succeeds_pure {a : α} (ha : Q a) : Succeeds w (pure a) Q := ⟨fun _ => ha⟩

theorem succeeds_call {q : Request} {Q : Response q → Prop} (hq : q.silent = true)
    (hQ : ∀ x, Good w q x → Q x) : Succeeds w (call q) Q :=
  ⟨fun _ => meets_run_ask.mpr ⟨hq, fun x hx => hQ x hx⟩⟩

theorem succeeds_check {v : Except ReconcilerError α} {a : α} (hv : v = .ok a) :
    Succeeds w (check v) (· = a) := by
  subst hv
  exact ⟨fun _ => rfl⟩

theorem succeeds_orKubeError {v : Except KubeError α} {a : α} (hv : v = .ok a) :
    Succeeds w (orKubeError v) (· = a) := by
  subst hv
  exact ⟨fun _ => rfl⟩

theorem Calls.silent (hx : Quietly x) : Calls Request.silent x :=
  hx.mono fun _ hq => Request.silent_of_quiet (Request.quiet_of_calm hq)

theorem succeeds_attempt (hx : Calls Request.silent x) :
    Succeeds w (attempt x : Reconcile (Except ReconcilerError α)) fun _ => True := by
  refine ⟨fun h => meets_run_attempt.mpr ?_⟩
  refine meets_outcome_mono (uses_run_meets hx.uses fun _ _ _ hq => hq) ?_ ?_
  all_goals exact fun _ _ _ => trivial

theorem Succeeds.attempt (hx : Succeeds w x Q) :
    Succeeds w (Prog.attempt x : Reconcile (Except ReconcilerError α)) fun r => ∃ a, r = .ok a := by
  refine ⟨fun h => meets_run_attempt.mpr ?_⟩
  exact meets_outcome_mono (hx.meets h) (fun a _ _ => ⟨a, rfl⟩) fun _ _ hF => hF.elim

end Rules

section Parts

theorem succeeds_namespaceOf (hw : Sound w) :
    Succeeds w (namespaceOf w.machine) fun ns => w.machine.ns = some ns := by
  obtain ⟨ns, hns⟩ := Option.isSome_iff_exists.mp hw.ns
  unfold namespaceOf
  rw [hns]
  exact succeeds_pure rfl

theorem succeeds_publish (event : KubeEvent) :
    Succeeds w (publishBestEffort event) fun _ => True :=
  (succeeds_call rfl fun _ _ => trivial).bind (Q := fun _ => True) fun _ _ => succeeds_pure trivial

theorem succeeds_ensureCanCreate (ns apiVersion kind label : String) :
    Succeeds w (ensureCanCreate ns apiVersion kind label) fun _ => True := by
  refine (succeeds_call rfl fun _ hx => hx).bind fun x hx => ?_
  obtain ⟨status, rfl, hallowed⟩ := hx
  refine (succeeds_orKubeError rfl).bind fun _ hs => ?_
  subst hs
  rw [if_pos hallowed]
  exact succeeds_pure trivial

theorem succeeds_create (context apiVersion kind ns name : String) (body : Json) :
    Succeeds w (createDynamicResource context apiVersion kind ns name body) fun _ => True := by
  refine (succeeds_call rfl fun _ hx => hx).bind fun x hx => ?_
  rcases hx with rfl | ⟨e, rfl, hexists⟩
  · exact succeeds_pure trivial
  · simp only [if_pos hexists]
    exact succeeds_pure trivial

theorem succeeds_deleteKey (context version : String) (k : ObjectKey) :
    Succeeds w (deleteKey context version k) fun _ => True := by
  refine (succeeds_call rfl fun _ hx => hx).bind fun x hx => ?_
  cases x with
  | ok _ => exact succeeds_pure trivial
  | error e =>
    have hnot : e.isNotFound = true := hx
    simp only [if_pos hnot]
    exact succeeds_pure trivial

theorem succeeds_deleteEmbedded (embedded : EmbeddedResource) (ns name : String) :
    Succeeds w (deleteEmbedded embedded ns name) fun _ => True := by
  unfold deleteEmbedded
  split
  · exact succeeds_deleteKey _ _ _
  · exact succeeds_pure trivial

theorem succeeds_removeMachine (ns : String) :
    Succeeds w (removeMachineFromCluster w.settings w.machine ns) fun _ => True :=
  (succeeds_deleteKey _ _ _).bind fun _ _ =>
    (succeeds_deleteEmbedded _ ns _).bind fun _ _ => succeeds_deleteEmbedded _ ns _

theorem succeeds_addMachine (hw : Sound w) (ns : String) :
    Succeeds w (addMachineToCluster w.settings w.machine ns) fun _ => True := by
  obtain ⟨bootstrapApiVersion, bootstrapKind, hba, hbk, hbg⟩ := hw.bootstrap
  obtain ⟨infraApiVersion, infraKind, hia, hik, hig⟩ := hw.infrastructure
  obtain ⟨uid, huid⟩ := Option.isSome_iff_exists.mp hw.uid
  unfold addMachineToCluster
  simp only [hba, hbk, hia, hik, huid, required]
  refine (succeeds_call rfl fun _ _ => trivial).bind (Q := fun _ => True) fun _ _ => ?_
  refine (succeeds_check rfl).bind fun _ h => ?_
  subst h
  refine (succeeds_check rfl).bind fun _ h => ?_
  subst h
  refine (succeeds_check rfl).bind fun _ h => ?_
  subst h
  refine (succeeds_check rfl).bind fun _ h => ?_
  subst h
  refine (succeeds_check hw.clusterName).bind fun _ _ => ?_
  refine (succeeds_check hw.killIfCommands).bind fun _ _ => ?_
  refine (succeeds_check hbg).bind fun _ _ => (succeeds_check hig).bind fun _ _ => ?_
  refine (succeeds_ensureCanCreate _ _ _ _).bind fun _ _ => ?_
  refine (succeeds_ensureCanCreate _ _ _ _).bind fun _ _ => ?_
  refine (succeeds_ensureCanCreate _ _ _ _).bind fun _ _ => ?_
  refine (succeeds_check hw.template).bind fun _ _ => ?_
  refine (succeeds_check hw.bootstrapMetadata).bind fun _ _ => ?_
  refine (succeeds_check hw.infrastructureMetadata).bind fun _ _ => ?_
  refine (succeeds_check rfl).bind fun _ h => ?_
  subst h
  refine (succeeds_create _ _ _ _ _ _).bind fun _ _ => ?_
  exact (succeeds_create _ _ _ _ _ _).bind fun _ _ => succeeds_create _ _ _ _ _ _

theorem succeeds_fetchCapiMachine (ns name : String) :
    Succeeds w (fetchCapiMachine ns name) fun _ => True := by
  refine (succeeds_call rfl fun _ hx => hx).bind fun x hx => ?_
  rcases hx with ⟨object, rfl⟩ | ⟨e, rfl, hnot⟩
  · exact succeeds_pure trivial
  · simp only [if_pos hnot]
    exact succeeds_pure trivial

theorem silent_drain (client : Client) (node : String) (timeout : Nat) :
    Calls Request.silent (drainNodeWithTimeout client node timeout) :=
  calls_drain rfl rfl (fun _ _ => rfl) rfl timeout

theorem succeeds_drainBeforeRemoval (hw : Sound w) (ns : String) :
    Succeeds w (drainBeforeRemoval w.machine ns) fun _ => True := by
  obtain ⟨timeout, htimeout⟩ := hw.drainTimeout
  have hnode : Succeeds w (getNodeFromMachine ns w.machine.name) fun _ => True := by
    refine (succeeds_fetchCapiMachine ns _).bind fun machine _ => ?_
    cases machine <;> exact succeeds_pure trivial
  refine hnode.bind fun nodeName _ => ?_
  cases nodeName with
  | none => exact succeeds_pure trivial
  | some nodeName =>
    refine (succeeds_check htimeout).bind fun _ _ => ?_
    refine (succeeds_call rfl fun _ hx => hx).bind fun x hx => ?_
    obtain ⟨client, rfl⟩ := hx
    refine (succeeds_check rfl).bind fun _ _ => ?_
    exact (succeeds_attempt (silent_drain _ nodeName _)).bind fun _ _ => succeeds_pure trivial

theorem succeeds_checkGracePeriodElapsed (hw : Sound w)
    (hphase : w.machine.phase = some .shuttingDown) :
    Succeeds w (checkGracePeriodElapsed w.machine) (· = true) := by
  unfold checkGracePeriodElapsed
  have hgrace := hw.grace
  cases hrecorded : recordedGracePeriod w.machine with
  | error e => simp [graceDone, hphase, hrecorded] at hgrace
  | ok period =>
    refine (succeeds_check rfl).bind fun period h => ?_
    subst h
    cases period with
    | none => exact succeeds_pure rfl
    | some period =>
      refine (succeeds_call rfl fun _ hx => hx).bind fun now hnow => succeeds_pure ?_
      have hnow : graceDone w.machine now = true := hnow
      simpa [graceDone, hphase, hrecorded] using hnow

end Parts

def lastPhase : Log → Option Phase
  | [] => none
  | ⟨.patchStatus p, _⟩ :: h => p.phase.or (lastPhase h)
  | _ :: h => lastPhase h

def lastFinalizers : Log → Option (List String)
  | [] => none
  | ⟨.patchFinalizers fs, _⟩ :: _ => some fs
  | _ :: h => lastFinalizers h

structure Blank (h : Log) : Prop where
  phase : lastPhase h = none
  finalizers : lastFinalizers h = none

abbrev Silenter (h h' : Log) : Prop := History.Grown (fun q => q.silent = true) h h'

theorem last_cons {q : Request} {x : Response q} {h : Log} (hq : q.silent = true) :
    lastPhase (⟨q, x⟩ :: h) = lastPhase h ∧ lastFinalizers (⟨q, x⟩ :: h) = lastFinalizers h := by
  cases q with
  | patchStatus p =>
    have hp : p.phase = none := by simpa [Request.silent] using hq
    simp [lastPhase, lastFinalizers, hp]
  | patchFinalizers fs => cases hq
  | _ => exact ⟨rfl, rfl⟩

theorem Silenter.last {h h' : Log} (hh : Silenter h h') :
    lastPhase h' = lastPhase h ∧ lastFinalizers h' = lastFinalizers h := by
  obtain ⟨l, rfl, hl⟩ := hh
  induction l with
  | nil => exact ⟨rfl, rfl⟩
  | cons x l ih =>
    obtain ⟨hphase, hfinalizers⟩ := ih fun y hy => hl y (List.mem_cons_of_mem _ hy)
    have hx := last_cons (x := x.2) (h := l ++ h) (hl x List.mem_cons_self)
    exact ⟨hx.1.trans hphase, hx.2.trans hfinalizers⟩

theorem Blank.after {h h' : Log} (hb : Blank h) (hh : Silenter h h') : Blank h' := by
  obtain ⟨hphase, hfinalizers⟩ := hh.last
  exact ⟨hphase.trans hb.phase, hfinalizers.trans hb.finalizers⟩

/-- `x` returns, and `Q` holds of what it has called by then. -/
structure Ends (w : World) (x : Reconcile α) (h : Log) (Q : Log → Prop) : Prop where
  meets : x.run.Meets (Good w) (fun _ _ => True) (Outcome (fun _ h' => Q h') fun _ _ => False) h

section Ends

variable {x : Reconcile α} {f : α → Reconcile β} {h : Log} {Q Q' : Log → Prop}

theorem Ends.bind (hx : Ends w x h Q) (hf : ∀ a h', Q h' → Ends w (f a) h' Q') :
    Ends w (x >>= f) h Q' :=
  ⟨meets_seq hx.meets (fun a h' ha => (hf a h' ha).meets) fun _ _ hF => hF⟩

theorem ends_pure {a : α} (hQ : Q h) : Ends w (pure a) h Q := ⟨hQ⟩

theorem Succeeds.then {P : α → Prop} (hx : Succeeds w x P)
    (hf : ∀ a h', P a → Silenter h h' → Ends w (f a) h' Q) : Ends w (x >>= f) h Q := by
  refine ⟨meets_run_bind.mpr (((hx.meets h).grown.permit fun _ _ _ => trivial).mono ?_)⟩
  intro r h' hr
  cases r with
  | ok a => exact (hf a h' hr.1 hr.2).meets
  | error e => exact hr.1.elim

theorem ends_recordPhase {defaultReason defaultMessage : String} {fromPhase : Option Phase}
    {phase : Phase} {reason message : Option String} {inSchedule : Bool}
    (hb : lastFinalizers h = none) :
    Ends w (recordPhase defaultReason defaultMessage fromPhase phase reason message inSchedule) h
      fun h' => lastPhase h' = some phase ∧ lastFinalizers h' = none := by
  refine (succeeds_publish _).then fun _ h₁ _ hs₁ => ?_
  refine (succeeds_call (Q := fun _ => True) rfl fun _ _ => trivial).then fun now h₂ _ hs₂ => ?_
  have hfinalizers := (Silenter.last (hs₁.trans hs₂)).2.trans hb
  refine ⟨meets_run_bind.mpr (meets_run_ask.mpr ⟨trivial, fun x hx => ?_⟩)⟩
  cases (show x = .ok () from hx)
  exact ⟨rfl, hfinalizers⟩

theorem ends_moveTo {fromPhase phase : Phase} {reason message : String} {inSchedule : Bool}
    {secs : Nat} (hb : Blank h) :
    Ends w (moveTo fromPhase phase reason message inSchedule secs) h
      fun h' => lastPhase h' = some phase ∧ lastFinalizers h' = none :=
  (ends_recordPhase hb.finalizers).bind fun _ _ hQ => ends_pure hQ

end Ends

def nextPhase : Option Phase → Option Phase
  | some .active => some .active
  | some .shuttingDown => some .inactive
  | some .inactive | some .disabled => some .pending
  | some .emergencyRemove => some .disabled
  | some .error => some .error
  | some .terminated => some .terminated
  | _ => some .active

structure Advances (r : ScheduledMachine) (h : Log) : Prop where
  phase : (lastPhase h).or r.phase = if hasFinalizer r then nextPhase r.phase else r.phase
  finalizers : if hasFinalizer r then lastFinalizers h = none
    else ∃ fs, lastFinalizers h = some fs ∧ finalizerScheduledMachine ∈ fs

section Handlers

variable {h : Log}

theorem advances_of_recorded {phase : Phase} (hf : hasFinalizer w.machine = true)
    (hnext : nextPhase w.machine.phase = some phase) {h' : Log}
    (hh : lastPhase h' = some phase ∧ lastFinalizers h' = none) : Advances w.machine h' := by
  refine ⟨?_, ?_⟩
  · rw [if_pos hf, hnext, hh.1]
    rfl
  · rw [if_pos hf]
    exact hh.2

theorem advances_of_blank (hf : hasFinalizer w.machine = true)
    (hnext : nextPhase w.machine.phase = w.machine.phase) (hb : Blank h) : Advances w.machine h := by
  refine ⟨?_, ?_⟩
  · rw [if_pos hf, hnext, hb.phase]
    rfl
  · rw [if_pos hf]
    exact hb.finalizers

theorem ends_advancing {fromPhase phase : Phase} {reason message : String} {inSchedule : Bool}
    {secs : Nat} (hf : hasFinalizer w.machine = true)
    (hnext : nextPhase w.machine.phase = some phase) (hb : Blank h) :
    Ends w (moveTo fromPhase phase reason message inSchedule secs) h (Advances w.machine) := by
  refine ⟨meets_outcome_mono (ends_moveTo hb).meets (fun _ _ hQ => ?_) fun _ _ hF => hF⟩
  exact advances_of_recorded hf hnext hQ

theorem ends_handlePendingPhase (hw : Sound w) (hf : hasFinalizer w.machine = true)
    (hnext : nextPhase w.machine.phase = some .active) (hb : Blank h) :
    Ends w (handlePendingPhase w.settings w.machine true) h (Advances w.machine) := by
  refine (succeeds_namespaceOf hw).then fun ns h₁ _ hs₁ => ?_
  rw [if_neg (by simp [hw.enabled]), if_neg (by simp)]
  refine (succeeds_addMachine hw ns).attempt.then fun x h₂ hx hs₂ => ?_
  obtain ⟨_, rfl⟩ := hx
  exact ends_advancing hf hnext ((hb.after hs₁).after hs₂)

theorem succeeds_onNode (nodeRef : Option NodeRef) {step : Client → String → Reconcile Unit}
    (hstep : ∀ client nodeName, Quietly (step client nodeName)) :
    Succeeds w (onNode nodeRef step) fun _ => True := by
  cases nodeRef with
  | none => exact succeeds_pure trivial
  | some r =>
    unfold onNode
    simp only
    split
    · exact succeeds_pure trivial
    · refine (succeeds_call (Q := fun _ => True) rfl fun _ _ => trivial).bind fun x _ => ?_
      cases x with
      | error e => exact succeeds_pure trivial
      | ok client =>
        exact (succeeds_attempt (hstep client r.name).silent).bind fun _ _ => succeeds_pure trivial

theorem succeeds_enrichActive (ns : String) :
    Succeeds w (enrichActive w.machine ns) fun _ => True := by
  refine (succeeds_attempt (still_fetchCapiMachine ns _).quietly.silent).bind fun fetched _ => ?_
  split
  · refine (succeeds_attempt (enriching_calm.calls_patchMachineRefsStatus _ _).silent).bind fun _ _ => ?_
    refine (succeeds_onNode _ fun client nodeName =>
      (still_reclaimAgentProvision client nodeName _).quietly).bind fun _ _ => ?_
    have htaints : ∀ nodeRef, Succeeds w (reconcileNodeTaintsBestEffort w.machine nodeRef)
        fun _ => True := by
      intro nodeRef
      unfold reconcileNodeTaintsBestEffort
      simp only
      split
      · exact succeeds_pure trivial
      · split
        · exact succeeds_pure trivial
        · exact succeeds_onNode nodeRef (quietly_recordNodeTaints _ _)
    refine (htaints _).bind fun _ _ => ?_
    exact succeeds_onNode _ fun client nodeName =>
      (still_kataConfigDelivery client nodeName _).quietly.bind fun _ => calls_pure _
  · exact succeeds_pure trivial

theorem ends_handleActivePhase (hw : Sound w) (hf : hasFinalizer w.machine = true)
    (hphase : w.machine.phase = some .active) (hb : Blank h) :
    Ends w (handleActivePhase w.machine true) h (Advances w.machine) := by
  refine (succeeds_namespaceOf hw).then fun ns h₁ _ hs₁ => ?_
  rw [if_neg (by simp [hw.enabled]), if_neg (by simp)]
  refine (succeeds_enrichActive ns).then fun _ h₂ _ hs₂ => ends_pure ?_
  exact advances_of_blank hf (by rw [hphase]; rfl) ((hb.after hs₁).after hs₂)

theorem ends_handleShuttingDownPhase (hw : Sound w) (hf : hasFinalizer w.machine = true)
    (hphase : w.machine.phase = some .shuttingDown) (hb : Blank h) :
    Ends w (handleShuttingDownPhase w.settings w.machine) h (Advances w.machine) := by
  refine (succeeds_namespaceOf hw).then fun ns h₁ _ hs₁ => ?_
  refine (succeeds_checkGracePeriodElapsed hw hphase).then fun _ h₂ helapsed hs₂ => ?_
  rw [if_pos helapsed]
  refine (succeeds_call (Q := fun _ => True) rfl fun _ _ => trivial).then fun _ h₃ _ hs₃ => ?_
  refine (succeeds_drainBeforeRemoval hw ns).then fun _ h₄ _ hs₄ => ?_
  refine (succeeds_removeMachine ns).attempt.then fun x h₅ hx hs₅ => ?_
  obtain ⟨_, rfl⟩ := hx
  refine ends_advancing hf (by rw [hphase]; rfl) ?_
  exact ((((hb.after hs₁).after hs₂).after hs₃).after hs₄).after hs₅

theorem ends_dispatchPhase (hw : Sound w) (hf : hasFinalizer w.machine = true) (hb : Blank h) :
    Ends w (dispatchPhase w.settings w.machine true) h (Advances w.machine) := by
  unfold dispatchPhase
  split
  · rename_i hphase
    exact ends_handleActivePhase hw hf hphase hb
  · rename_i hphase
    exact ends_handleShuttingDownPhase hw hf hphase hb
  · rename_i hphase
    refine (succeeds_namespaceOf hw).then fun ns h₁ _ hs₁ => ?_
    rw [if_neg (by simp [hw.enabled]), if_neg (by simp)]
    exact ends_advancing hf (by rw [hphase]; rfl) (hb.after hs₁)
  · rename_i hphase
    refine (succeeds_namespaceOf hw).then fun ns h₁ _ hs₁ => ?_
    rw [if_pos hw.enabled]
    exact ends_advancing hf (by rw [hphase]; rfl) (hb.after hs₁)
  · rename_i hphase
    exact ends_pure (advances_of_blank hf (by rw [hphase]; rfl) hb)
  · rename_i hphase
    refine (succeeds_namespaceOf hw).then fun ns h₁ _ hs₁ => ?_
    exact ends_advancing hf (by rw [hphase]; rfl) (hb.after hs₁)
  · rename_i hphase
    refine (succeeds_namespaceOf hw).then fun ns h₁ _ hs₁ => ends_pure ?_
    exact advances_of_blank hf (by rw [hphase]; rfl) (hb.after hs₁)
  · refine ends_handlePendingPhase hw hf ?_ hb
    cases hphase : w.machine.phase with
    | none => rfl
    | some phase => cases phase <;> simp_all [nextPhase]

end Handlers

section Reconcile

variable {h : Log}

theorem succeeds_checkEmergencyReclaim :
    Succeeds w (checkEmergencyReclaim w.settings w.machine) (· = none) := by
  unfold checkEmergencyReclaim
  split
  · exact succeeds_pure rfl
  · split
    · exact succeeds_pure rfl
    · refine (succeeds_call rfl fun _ hx => hx).bind fun x hx => ?_
      obtain ⟨client, rfl⟩ := hx
      refine (succeeds_check rfl).bind fun _ _ => ?_
      refine (succeeds_call rfl fun _ hx => hx).bind fun y hy => ?_
      rcases hy with ⟨node, rfl, hrequest⟩ | ⟨e, rfl, hnot⟩
      · simp only [hrequest]
        exact succeeds_pure rfl
      · simp only [if_pos hnot]
        exact succeeds_pure rfl

theorem succeeds_resolveSchedule (ns : String) :
    Succeeds w (resolveSchedule ns w.machine.spec.schedule) fun v => v.isActive? = some true := by
  unfold resolveSchedule resolveSpotSchedule
  refine Succeeds.bind (Q := fun v => ∃ verdict : SpotScheduleVerdict, v = .ok verdict ∧
    verdict.isActive? = some true) ?_ fun v hv => ?_
  · refine (succeeds_call rfl fun _ hx => hx).bind fun x hx => ?_
    cases (show x = .ok () from hx)
    refine (succeeds_call rfl fun _ hx => hx).bind fun y hy => ?_
    obtain ⟨object, rfl, hactive⟩ := hy
    exact succeeds_pure ⟨_, rfl, by simpa [saysActive] using hactive⟩
  · obtain ⟨verdict, rfl, hactive⟩ := hv
    exact succeeds_pure hactive

theorem succeeds_persistSpotScheduleStatus (verdict : SpotScheduleVerdict)
    (previousActive : Option Bool) (current : Option SpotScheduleStatus) :
    Succeeds w (persistSpotScheduleStatus verdict previousActive current) fun _ => True := by
  have htime : ∀ transitioned, Succeeds w (transitionTime transitioned) fun _ => True := by
    intro transitioned
    unfold transitionTime
    split
    · exact (succeeds_call (Q := fun _ => True) rfl fun _ _ => trivial).bind
        fun _ _ => succeeds_pure trivial
    · exact succeeds_pure trivial
  refine (htime _).bind fun time _ => ?_
  simp only
  split
  · exact succeeds_pure trivial
  · refine (succeeds_call rfl fun _ hx => hx).bind fun x hx => ?_
    cases (show x = .ok () from hx)
    exact succeeds_pure trivial

theorem ends_reconcileInner (hw : Sound w) (hf : hasFinalizer w.machine = true) (hb : Blank h) :
    Ends w (reconcileInner w.settings w.machine) h (Advances w.machine) := by
  refine (succeeds_namespaceOf hw).then fun ns h₁ _ hs₁ => ?_
  refine (succeeds_check hw.clusterName).then fun _ h₂ _ hs₂ => ?_
  refine (succeeds_check hw.killIfCommands).then fun _ h₃ _ hs₃ => ?_
  refine (succeeds_check hw.schedule).then fun _ h₄ _ hs₄ => ?_
  rw [if_neg (by simp [hw.killOff])]
  refine succeeds_checkEmergencyReclaim.then fun action h₅ haction hs₅ => ?_
  subst haction
  refine (succeeds_resolveSchedule ns).then fun verdict h₆ hverdict hs₆ => ?_
  refine (succeeds_persistSpotScheduleStatus _ _ _).then fun _ h₇ _ hs₇ => ?_
  have hopen : composeShouldBeActive verdict w.machine.lastKnownSpotActive = true := by
    rw [composeShouldBeActive_eq, hverdict]
    rfl
  rw [hopen]
  refine (succeeds_call (Q := fun _ => True) rfl fun _ _ => trivial).then fun _ h₈ _ hs₈ => ?_
  refine ends_dispatchPhase hw hf (Blank.after ?_ hs₈)
  exact (((((((hb.after hs₁).after hs₂).after hs₃).after hs₄).after hs₅).after hs₆).after hs₇)

/-- A reconcile of a sound resource in good circumstances returns and moves it on. -/
theorem reconcile_advances (hw : Sound w) :
    Ends w (reconcileScheduledMachine w.settings w.machine) [] (Advances w.machine) := by
  refine (succeeds_namespaceOf hw).then fun ns h₁ hns hs₁ => ?_
  refine (succeeds_call rfl fun _ hx => hx).then fun leader h₂ hleader hs₂ => ?_
  have hleader : leader = true := hleader
  have hb : Blank h₂ := Blank.after (Blank.after ⟨rfl, rfl⟩ hs₁) hs₂
  rw [if_neg (by simp [hleader]), if_neg (by simp [hw.owned ns hns]), if_neg (by simp [hw.live])]
  cases hf : hasFinalizer w.machine with
  | true => exact ends_reconcileInner hw hf hb
  | false =>
    refine (succeeds_namespaceOf hw).then fun _ h₃ _ hs₃ => ?_
    refine ⟨meets_run_bind.mpr (meets_run_ask.mpr ⟨trivial, fun x hx => ?_⟩)⟩
    cases (show x = .ok () from hx)
    refine ⟨?_, ?_⟩
    · have hphase := (hb.after hs₃).phase
      show (lastPhase h₃).or _ = _
      rw [hphase, hf]
      rfl
    · rw [hf]
      refine ⟨_, rfl, ?_⟩
      split
      · rename_i hmem
        simpa using hmem
      · simp

end Reconcile

end FiveSpot.Machine
