import FiveSpot.Machine.Footprint

/-!
# The ordinary parts of a reconcile

Most of a reconcile makes ordinary calls only. Each function that does is shown to, and the way through
a reconcile is followed once: what is permitted of its calls is then a matter of the two steps that are
not ordinary, the emergency reclaim and what an active machine gets.
-/

namespace FiveSpot.Machine

set_option autoImplicit false

open Effects Effects.Prog

theorem action_buildPhaseTransitionEvent (fromPhase : Option Phase) (phase : Phase)
    (reason message : String) :
    (buildPhaseTransitionEvent fromPhase phase reason message).action ≠ "RapidReReclaim" := by
  intro haction
  have hchars : ("PhaseTransitionTo" ++ phase.text).toList = "RapidReReclaim".toList :=
    congrArg String.toList haction
  rw [String.toList_append] at hchars
  exact absurd (congrArg List.head? hchars) (by simp)

theorem ordinary_recordPhase (defaultReason defaultMessage : String) (fromPhase : Option Phase)
    (phase : Phase) (reason message : Option String) (inSchedule : Bool) :
    Ordinary (recordPhase defaultReason defaultMessage fromPhase phase reason message inSchedule) := by
  have hpublish : (Request.publish (buildPhaseTransitionEvent fromPhase phase
      (reason.getD defaultReason) (message.getD defaultMessage))).ordinary = true :=
    bne_iff_ne.mpr (action_buildPhaseTransitionEvent _ _ _ _)
  exact (calls_publish hpublish).bind fun _ => (calls_call rfl).bind fun _ =>
    (calls_call rfl).bind calls_orKubeError

theorem ordinary_moveTo (fromPhase phase : Phase) (reason message : String) (inSchedule : Bool)
    (secs : Nat) : Ordinary (moveTo fromPhase phase reason message inSchedule secs) :=
  (ordinary_recordPhase _ _ _ _ _ _ _).bind fun _ => calls_pure _

/-- The ordinary calls that record no phase. -/
abbrev Phaseless {α : Type} (x : Reconcile α) : Prop := Calls (fun q => q.ordinary && !q.setsPhase) x

theorem Phaseless.ordinary {α : Type} {x : Reconcile α} (hx : Phaseless x) : Ordinary x :=
  hx.mono fun _ hq => ((Bool.and_eq_true _ _).mp hq).1

theorem Still.phaseless {α : Type} {x : Reconcile α} (hx : Still x) : Phaseless x := by
  refine hx.mono fun q hq => ?_
  obtain ⟨hcalm, hordinary⟩ := (Bool.and_eq_true _ _).mp hq
  rw [hordinary, Request.setsPhase_of_steady (Request.steady_of_quiet (Request.quiet_of_calm hcalm))]
  rfl

theorem phaseless_createDynamicResource (context apiVersion kind ns name : String) (body : Json) :
    Phaseless (createDynamicResource context apiVersion kind ns name body) := by
  refine (calls_call rfl).bind fun x => ?_
  split
  · exact calls_pure _
  · split
    · exact calls_pure _
    · exact calls_throw _

theorem phaseless_addMachine (s : Settings) (r : ScheduledMachine) (ns : String) :
    Phaseless (addMachineToCluster s r ns) := by
  unfold addMachineToCluster
  refine (calls_call rfl).bind fun _ => ?_
  iterate 4 refine (calls_check _).bind fun _ => ?_
  iterate 4 refine (calls_check _).bind fun _ => ?_
  iterate 3 refine (still_ensureCanCreate _ _ _ _).phaseless.bind fun _ => ?_
  iterate 4 refine (calls_check _).bind fun _ => ?_
  iterate 2 refine (phaseless_createDynamicResource _ _ _ _ _ _).bind fun _ => ?_
  exact phaseless_createDynamicResource _ _ _ _ _ _

theorem phaseless_deleteKey (context version : String) (key : ObjectKey) :
    Phaseless (deleteKey context version key) := by
  refine (calls_call rfl).bind fun x => ?_
  split
  · exact calls_pure _
  · split
    · exact calls_pure _
    · exact calls_throw _

theorem phaseless_deleteEmbedded (embedded : EmbeddedResource) (ns name : String) :
    Phaseless (deleteEmbedded embedded ns name) := by
  unfold deleteEmbedded
  split
  · exact phaseless_deleteKey _ _ _
  · exact calls_pure _

theorem phaseless_removeMachine (s : Settings) (r : ScheduledMachine) (ns : String) :
    Phaseless (removeMachineFromCluster s r ns) :=
  (phaseless_deleteKey _ _ _).bind fun _ => (phaseless_deleteEmbedded _ _ _).bind fun _ =>
    phaseless_deleteEmbedded _ _ _

theorem phaseless_getNodeFromMachine (ns name : String) : Phaseless (getNodeFromMachine ns name) := by
  refine (still_fetchCapiMachine ns name).phaseless.bind fun machine => ?_
  split <;> exact calls_pure _

theorem phaseless_drain (client : Client) (node : String) (timeout : Nat) :
    Phaseless (drainNodeWithTimeout client node timeout) :=
  calls_drain rfl rfl (fun _ _ => rfl) rfl timeout

theorem uses_pollTimer {α : Type} {kind : Request → Bool} {p : Prog Request Response α}
    (htimer : kind .timerFired = true) (hp : p.Uses fun q => kind q = true) :
    (pollTimer p).Uses fun q => kind q = true := by
  induction p with
  | pure a => trivial
  | call q k ih =>
    refine ⟨hp.1, fun x => ⟨htimer, fun fired => ?_⟩⟩
    cases fired with
    | true => trivial
    | false => exact ih x (hp.2 x)

theorem Calls.cleanup {kind : Request → Bool} {x : Reconcile Unit} (htimer : kind .timerFired = true)
    (hx : Calls kind x) : Calls kind (runCleanupWithTimeout x) := by
  have hpoll : Calls kind
      (ExceptT.lift (pollTimer x.run) : Reconcile (Option (Except ReconcilerError Unit))) :=
    ⟨(uses_pollTimer htimer hx.uses).bind fun _ => trivial⟩
  refine hpoll.bind fun outcome => ?_
  split <;> exact calls_pure _

theorem ordinary_recordTerminated (r : ScheduledMachine) : Ordinary (recordTerminated r) :=
  (ordinary_recordPhase _ _ _ _ _ _ _).bind fun _ => calls_pure _

theorem ordinary_handleKillSwitch (s : Settings) (r : ScheduledMachine) :
    Ordinary (handleKillSwitch s r) := by
  refine (calls_namespaceOf r).bind fun ns => ?_
  split
  · exact calls_pure _
  · split
    · exact (phaseless_removeMachine s r ns).ordinary.bind fun _ => ordinary_recordTerminated r
    · exact ordinary_recordTerminated r

theorem phaseless_transitionTime (transitioned : Bool) : Phaseless (transitionTime transitioned) := by
  unfold transitionTime
  split
  · exact (calls_call rfl).bind fun _ => calls_pure _
  · exact calls_pure _

theorem phaseless_persistSpotScheduleStatus (verdict : SpotScheduleVerdict) (previous : Option Bool)
    (current : Option SpotScheduleStatus) :
    Phaseless (persistSpotScheduleStatus verdict previous current) := by
  refine (phaseless_transitionTime _).bind fun time => ?_
  simp only
  split
  · exact calls_pure _
  · exact (calls_call rfl).bind calls_orKubeError

theorem phaseless_resolveSchedule (ns : String) (reference : SpotScheduleRef) :
    Phaseless (resolveSchedule ns reference) := by
  unfold resolveSchedule resolveSpotSchedule
  refine Calls.bind ?_ fun x => calls_orKubeError x
  refine (calls_call rfl).bind fun kind => ?_
  split
  · exact calls_pure _
  · refine (calls_call rfl).bind fun provider => ?_
    split <;> exact calls_pure _

theorem ordinary_handlePendingPhase (s : Settings) (r : ScheduledMachine) (active : Bool) :
    Ordinary (handlePendingPhase s r active) := by
  refine (calls_namespaceOf r).bind fun ns => ?_
  split
  · exact ordinary_moveTo _ _ _ _ _ _
  · split
    · exact ordinary_moveTo _ _ _ _ _ _
    · refine (phaseless_addMachine s r ns).ordinary.attempt.bind fun outcome => ?_
      split <;> exact ordinary_moveTo _ _ _ _ _ _

theorem phaseless_drainBeforeRemoval (r : ScheduledMachine) (ns : String) :
    Phaseless (drainBeforeRemoval r ns) := by
  refine (phaseless_getNodeFromMachine ns r.name).bind fun node => ?_
  split
  · exact calls_pure _
  · refine (calls_check _).bind fun timeout => (calls_call rfl).bind fun x => ?_
    exact (calls_check x).bind fun client => (phaseless_drain _ _ _).attempt.bind fun _ => calls_pure _

theorem phaseless_checkGracePeriodElapsed (r : ScheduledMachine) :
    Phaseless (checkGracePeriodElapsed r) := by
  refine (calls_check _).bind fun period => ?_
  split
  · exact calls_pure _
  · exact (calls_call rfl).bind fun _ => calls_pure _

theorem ordinary_handleShuttingDownPhase (s : Settings) (r : ScheduledMachine) :
    Ordinary (handleShuttingDownPhase s r) := by
  refine (calls_namespaceOf r).bind fun ns => ?_
  refine (phaseless_checkGracePeriodElapsed r).ordinary.bind fun elapsed => ?_
  split
  · refine (calls_call rfl).bind fun _ => (phaseless_drainBeforeRemoval r ns).ordinary.bind fun _ => ?_
    refine (phaseless_removeMachine s r ns).ordinary.attempt.bind fun outcome => ?_
    split <;> exact ordinary_moveTo _ _ _ _ _ _
  · exact calls_pure _

theorem ordinary_handleInactivePhase (r : ScheduledMachine) (active : Bool) :
    Ordinary (handleInactivePhase r active) := by
  refine (calls_namespaceOf r).bind fun _ => ?_
  split
  · exact calls_pure _
  · split
    · exact calls_pure _
    · exact ordinary_moveTo _ _ _ _ _ _

theorem ordinary_handleDisabledPhase (r : ScheduledMachine) : Ordinary (handleDisabledPhase r) := by
  refine (calls_namespaceOf r).bind fun _ => ?_
  split
  · exact ordinary_moveTo _ _ _ _ _ _
  · exact calls_pure _

section Reclaim

/-- The calls of an emergency reclaim: ordinary ones, the count and the warning, and the patch that takes
the request off. -/
def Request.reclaims : Request → Bool
  | .recordReclaim _ | .publish _ => true
  | .patchNode _ _ p => p.taints.isNone
  | q => q.ordinary

theorem Request.reclaims_of_ordinary {q : Request} (hq : q.ordinary = true) : q.reclaims = true := by
  cases q with
  | patchNode client name p => exact ((Bool.and_eq_true _ _).mp hq).1
  | recordReclaim _ | publish _ => rfl
  | _ => exact hq

theorem Calls.reclaims {α : Type} {x : Reconcile α} (hx : Ordinary x) : Calls Request.reclaims x :=
  hx.mono fun _ => Request.reclaims_of_ordinary

theorem reclaims_noteReclaim (r : ScheduledMachine) : Calls Request.reclaims (noteReclaim r) := by
  refine (calls_call rfl).bind fun now => (calls_call rfl).bind fun breach => ?_
  split
  · exact calls_publish rfl
  · exact calls_pure _

theorem reclaims_handleEmergencyRemove (s : Settings) (r : ScheduledMachine) (nodeName : String)
    (request : ReclaimRequest) :
    Calls Request.reclaims (handleEmergencyRemove s r nodeName request) := by
  have hfinish : ∀ ns client, Calls Request.reclaims (finishEmergencyRemove s r ns client nodeName) := by
    intro ns client
    refine (phaseless_removeMachine s r ns).ordinary.reclaims.bind fun _ => ?_
    refine (calls_call rfl).bind fun x => (calls_orKubeError x).bind fun _ => ?_
    refine (calls_publish rfl).bind fun _ => (calls_call rfl).bind fun _ => ?_
    exact (ordinary_recordPhase _ _ _ _ _ _ _).reclaims.bind fun _ => calls_pure _
  refine (calls_namespaceOf r).bind fun ns => (calls_publish rfl).bind fun _ => ?_
  refine (ordinary_recordPhase _ _ _ _ _ _ _).reclaims.bind fun _ => ?_
  refine (reclaims_noteReclaim r).bind fun _ => ?_
  refine (calls_call rfl).bind fun x => (calls_check x).bind fun client => ?_
  exact (phaseless_drain _ _ _).ordinary.reclaims.attempt.bind fun _ => hfinish ns client

theorem reclaims_checkEmergencyReclaim (s : Settings) (r : ScheduledMachine) :
    Calls Request.reclaims (checkEmergencyReclaim s r) := by
  unfold checkEmergencyReclaim
  split
  · exact calls_pure _
  · split
    · exact calls_pure _
    · refine (calls_call rfl).bind fun x => (calls_check x).bind fun client => ?_
      refine (calls_call rfl).bind fun answer => ?_
      split
      · split
        · exact calls_pure _
        · exact calls_throw _
      · split
        · exact calls_pure _
        · exact (reclaims_handleEmergencyRemove _ _ _ _).bind fun _ => calls_pure _

end Reclaim

section Usual

def foreignFinalizers (r : ScheduledMachine) : List String :=
  (r.finalizers.getD []).filter fun f => f != finalizerScheduledMachine

/-- An ordinary call, or a list of finalizers with the foreign ones of `r` in it. -/
inductive Usual (r : ScheduledMachine) : Request → Prop where
  | ordinary {q : Request} : q.ordinary = true → Usual r q
  | finalizers {fs : List String} :
      (fs.filter fun f => f != finalizerScheduledMachine) = foreignFinalizers r →
      Usual r (.patchFinalizers fs)

variable {α β : Type} {r : ScheduledMachine}

structure Usually (r : ScheduledMachine) (x : Reconcile α) : Prop where
  uses : x.run.Uses (Usual r)

theorem Usually.bind {x : Reconcile α} {f : α → Reconcile β} (hx : Usually r x)
    (hf : ∀ a, Usually r (f a)) : Usually r (x >>= f) :=
  ⟨uses_run_bind hx.uses fun a => (hf a).uses⟩

theorem Calls.usually {x : Reconcile α} (hx : Ordinary x) : Usually r x :=
  ⟨hx.uses.mono fun _ => .ordinary⟩

theorem usually_patchFinalizers {fs : List String}
    (hfs : (fs.filter fun f => f != finalizerScheduledMachine) = foreignFinalizers r) :
    Usually r (call (.patchFinalizers fs)) :=
  ⟨(uses_run_ask _).mpr (.finalizers hfs)⟩

theorem usually_addFinalizer (r : ScheduledMachine) : Usually r (addFinalizer r) := by
  refine Usually.bind (calls_namespaceOf r).usually fun _ => (usually_patchFinalizers ?_).bind fun x => ?_
  · unfold foreignFinalizers
    split
    · rfl
    · simp
  · exact Calls.usually ((calls_orKubeError x).bind fun _ => calls_pure _)

theorem usually_removeFinalizer (r : ScheduledMachine) : Usually r (removeFinalizer r) := by
  refine (usually_patchFinalizers ?_).bind fun x => ?_
  · simp [foreignFinalizers]
  · exact Calls.usually ((calls_orKubeError x).bind fun _ => calls_pure _)

theorem usually_handleDeletion (s : Settings) (r : ScheduledMachine) : Usually r (handleDeletion s r) := by
  have htimeout : (Request.publish (buildFinalizerTimeoutEvent finalizerCleanupTimeoutSecs)).ordinary =
      true := by
    decide
  refine Usually.bind (calls_namespaceOf r).usually fun ns => ?_
  split
  · refine Usually.bind ((phaseless_removeMachine s r ns).ordinary.cleanup rfl).usually fun outcome => ?_
    split
    · exact usually_removeFinalizer r
    · exact Calls.usually (calls_throw _)
    · refine Usually.bind (calls_publish htimeout).usually fun _ => ?_
      split
      · exact usually_removeFinalizer r
      · exact Calls.usually (calls_throw _)
  · exact usually_removeFinalizer r

end Usual

section Walk

variable {α β : Type} {s : Settings} {r : ScheduledMachine} {h : Log}

/-- A property of the log under which the usual calls are permitted, and which they keep. -/
structure Admits (r : ScheduledMachine) (permits : Log → Request → Prop) (Inv : Log → Prop) : Prop where
  permits : ∀ {h q}, Inv h → Usual r q → permits h q
  keeps : ∀ {h q} (x : Response q), Inv h → Usual r q → Inv (⟨q, x⟩ :: h)

variable {permits : Log → Request → Prop} {Inv End : Log → Prop} (hA : Admits r permits Inv)

include hA

theorem Admits.grown {h' : Log} (hinv : Inv h) (hgrown : History.Grown (Usual r) h h') : Inv h' := by
  obtain ⟨l, rfl, hl⟩ := hgrown
  induction l with
  | nil => exact hinv
  | cons x l ih =>
    obtain ⟨hx, hl⟩ := List.forall_mem_cons.mp hl
    exact hA.keeps x.2 (ih hl) hx

theorem Admits.usually {x : Reconcile α} (hx : Usually r x) (hinv : Inv h) :
    Keeps permits x h (fun _ h' => Inv h') fun _ h' => Inv h' :=
  ⟨meets_outcome_mono (uses_run_meets hx.uses fun _ _ hgrown => hA.permits (hA.grown hinv hgrown))
    (fun _ _ => hA.grown hinv) fun _ _ => hA.grown hinv⟩

theorem Admits.ordinary {x : Reconcile α} (hx : Ordinary x) (hinv : Inv h) :
    Keeps permits x h (fun _ h' => Inv h') fun _ h' => Inv h' :=
  hA.usually hx.usually hinv

variable (hend : ∀ h, Inv h → End h)

include hend

theorem Admits.last {x : Reconcile α} (hx : Usually r x) (hinv : Inv h) :
    Keeps permits x h (fun _ h' => End h') fun _ h' => End h' :=
  (hA.usually hx hinv).weaken (fun _ => hend) fun _ => hend

theorem Admits.first {x : Reconcile α} {f : α → Reconcile β} (hx : Ordinary x) (hinv : Inv h)
    (hf : ∀ a h', Inv h' → Keeps permits (f a) h' (fun _ h' => End h') fun _ h' => End h') :
    Keeps permits (x >>= f) h (fun _ h' => End h') fun _ h' => End h' :=
  (hA.ordinary hx hinv).bind hf fun _ => hend

variable (henrich : ∀ ns h, r.ns = some ns → Inv h →
  Keeps permits (enrichActive r ns) h (fun _ h' => End h') fun _ h' => End h')

include henrich

theorem Admits.handleActivePhase (active : Bool) (hinv : Inv h) :
    Keeps permits (handleActivePhase r active) h (fun _ h' => End h') fun _ h' => End h' := by
  have hshutdown : ∀ reason message, Ordinary (startShutdown reason message) := fun _ _ =>
    (ordinary_recordPhase _ _ _ _ _ _ _).bind fun _ => calls_pure _
  unfold Machine.handleActivePhase namespaceOf
  cases hns : r.ns with
  | none => exact keeps_throw (hend h hinv)
  | some ns =>
    simp only
    split
    · exact hA.last hend (hshutdown _ _).usually hinv
    · split
      · exact hA.last hend (hshutdown _ _).usually hinv
      · exact (henrich ns h hns hinv).bind (fun _ _ he => keeps_pure he) fun _ _ he => he

theorem Admits.dispatchPhase (active : Bool) (hinv : Inv h) :
    Keeps permits (dispatchPhase s r active) h (fun _ h' => End h') fun _ h' => End h' := by
  unfold Machine.dispatchPhase
  split
  · exact hA.handleActivePhase hend henrich active hinv
  · exact hA.last hend (ordinary_handleShuttingDownPhase s r).usually hinv
  · exact hA.last hend (ordinary_handleInactivePhase r active).usually hinv
  · exact hA.last hend (ordinary_handleDisabledPhase r).usually hinv
  · exact keeps_pure (hend h hinv)
  · exact hA.first hend (calls_namespaceOf r) hinv fun _ _ =>
      hA.last hend (ordinary_moveTo _ _ _ _ _ _).usually
  · exact hA.first hend (calls_namespaceOf r) hinv fun _ _ hinv => keeps_pure (hend _ hinv)
  · exact hA.last hend (ordinary_handlePendingPhase s r active).usually hinv

theorem Admits.reconcileInner (hinv : Inv h)
    (hcheck : ∀ h, Inv h → Keeps permits (checkEmergencyReclaim s r) h
      (fun outcome h' => outcome.elim (Inv h') fun _ => End h') fun _ h' => End h') :
    Keeps permits (reconcileInner s r) h (fun _ h' => End h') fun _ h' => End h' := by
  refine hA.first hend (calls_namespaceOf r) hinv fun ns h₁ hinv => ?_
  refine hA.first hend (calls_check _) hinv fun _ h₂ hinv => ?_
  refine hA.first hend (calls_check _) hinv fun _ h₃ hinv => ?_
  refine hA.first hend (calls_check _) hinv fun _ h₄ hinv => ?_
  split
  · exact hA.last hend (ordinary_handleKillSwitch s r).usually hinv
  · refine (hcheck h₄ hinv).bind (fun outcome h₅ houtcome => ?_) fun _ _ he => he
    cases outcome with
    | some action => exact keeps_pure houtcome
    | none =>
      refine hA.first hend (phaseless_resolveSchedule _ _).ordinary houtcome fun verdict h₆ hinv => ?_
      refine hA.first hend (phaseless_persistSpotScheduleStatus _ _ _).ordinary hinv fun _ h₇ hinv => ?_
      exact hA.first hend (calls_call rfl) hinv fun _ h₈ => hA.dispatchPhase hend henrich _

/-- The way through a reconcile: beside the usual calls there are those of an emergency reclaim and of
what an active machine gets. -/
theorem Admits.reconcile (hinv : Inv h)
    (hcheck : ∀ h, Inv h → Keeps permits (checkEmergencyReclaim s r) h
      (fun outcome h' => outcome.elim (Inv h') fun _ => End h') fun _ h' => End h') :
    Keeps permits (reconcileScheduledMachine s r) h (fun _ h' => End h') fun _ h' => End h' := by
  refine hA.first hend (calls_namespaceOf r) hinv fun ns h₁ hinv => ?_
  refine hA.first hend (calls_call rfl) hinv fun leader h₂ hinv => ?_
  split
  · exact keeps_pure (hend _ hinv)
  · split
    · exact keeps_pure (hend _ hinv)
    · split
      · exact hA.last hend (usually_handleDeletion s r) hinv
      · split
        · exact hA.last hend (usually_addFinalizer r) hinv
        · exact hA.reconcileInner hend henrich hinv hcheck

end Walk

/-- The same where nothing is asked of the log and the calls of a reclaim are permitted anywhere. -/
theorem keeps_reconcile {s : Settings} {r : ScheduledMachine} {h : Log}
    {permits : Log → Request → Prop} (hreclaims : ∀ h q, q.reclaims = true → permits h q)
    (hfinalizers : ∀ h fs, (fs.filter fun f => f != finalizerScheduledMachine) = foreignFinalizers r →
      permits h (.patchFinalizers fs))
    (henrich : ∀ ns h, r.ns = some ns →
      Keeps permits (enrichActive r ns) h (fun _ _ => True) fun _ _ => True) :
    Keeps permits (reconcileScheduledMachine s r) h (fun _ _ => True) fun _ _ => True := by
  have hA : Admits r permits fun _ => True := by
    refine ⟨fun _ hq => ?_, fun _ _ _ => trivial⟩
    cases hq with
    | ordinary hq => exact hreclaims _ _ (Request.reclaims_of_ordinary hq)
    | finalizers hfs => exact hfinalizers _ _ hfs
  refine hA.reconcile (fun _ _ => trivial) (fun ns h' hns _ => henrich ns h' hns) trivial fun h' _ => ⟨?_⟩
  refine meets_outcome_mono (uses_run_meets (reclaims_checkEmergencyReclaim s r).uses
    fun _ q _ => hreclaims _ q) (fun outcome _ _ => ?_) fun _ _ _ => trivial
  cases outcome <;> trivial

end FiveSpot.Machine
