import FiveSpot.Machine.Frame
import FiveSpot.Machine.Ordinary

/-!
# The life cycle of a resource

The phases of a resource form a graph. Each handler looks at the phase the reconcile was started with,
and an emergency reclaim goes on from the phase it has just recorded; so what a run makes of the stored
phase is a path in the graph, however the calls are answered and wherever the process ends. An Event
that names both ends goes before each step of the path.
-/

namespace FiveSpot.Machine

set_option autoImplicit false

open Effects Effects.Prog

/-- The edges of the graph: what can be recorded after which phase. -/
def Phase.follows (before : Option Phase) : Phase → Bool
  | .pending => before == some .inactive || before == some .disabled
  | .active => isPending before
  | .shuttingDown => before == some .active
  | .inactive => isPending before || before == some .shuttingDown
  | .disabled => isPending before || before == some .emergencyRemove
  | .terminated => before != some .terminated
  | .error => isPending before || before == some .shuttingDown
  | .emergencyRemove => true
  | .other _ => false

/-- The phase an Event gives as the earlier one: a missing or unknown phase is announced as pending. -/
def Phase.names (before announced : Option Phase) : Bool :=
  announced == before || isPending before && announced == some .pending

section Log

/-- A phase in the answered part of a patch. -/
def recordsPhase : Sigma Response → Option Phase
  | ⟨.patchStatus p, .ok ()⟩ => p.phase
  | _ => none

/-- The phase on record after the calls in `h`, for a reconcile that was started on `phase`. -/
def phaseAfter (phase : Option Phase) (h : Log) : Option Phase :=
  (h.findSome? recordsPhase).or phase

/-- No phase was sent without being acknowledged. -/
def Acknowledged (h : Log) : Prop :=
  ∀ x ∈ h, x.1.setsPhase = true → (recordsPhase x).isSome = true

/-- What a reconcile knows of the phase it works on. -/
structure OnRecord (r : ScheduledMachine) (phase : Option Phase) (h : Log) : Prop where
  acknowledged : Acknowledged h
  phase : phaseAfter r.phase h = phase

variable {r : ScheduledMachine} {phase : Option Phase} {h h' : Log}

theorem recordsPhase_of_setsPhase {x : Sigma Response} (hx : x.1.setsPhase = false) :
    recordsPhase x = none := by
  obtain ⟨q, x⟩ := x
  cases q with
  | patchStatus p =>
    cases x with
    | ok _ =>
      show p.phase = none
      simpa [Request.setsPhase] using hx
    | error e => rfl
  | _ => rfl

theorem phaseAfter_cons (phase : Option Phase) (x : Sigma Response) (h : Log) :
    phaseAfter phase (x :: h) = (recordsPhase x).or (phaseAfter phase h) := by
  unfold phaseAfter
  rw [List.findSome?_cons]
  cases recordsPhase x <;> rfl

theorem OnRecord.cons {x : Sigma Response} (hon : OnRecord r phase h)
    (hx : x.1.setsPhase = false) : OnRecord r phase (x :: h) where
  acknowledged y hy hset := by
    rcases List.mem_cons.mp hy with rfl | hy
    · cases hx.symm.trans hset
    · exact hon.acknowledged y hy hset
  phase := by
    rw [phaseAfter_cons, recordsPhase_of_setsPhase hx]
    exact hon.phase

theorem OnRecord.after (hon : OnRecord r phase h) (hgrown : Unphased h h') : OnRecord r phase h' := by
  obtain ⟨l, rfl, hl⟩ := hgrown
  induction l with
  | nil => exact hon
  | cons x l ih =>
    obtain ⟨hx, hl⟩ := List.forall_mem_cons.mp hl
    exact (ih hl).cons hx

theorem OnRecord.recorded {p : StatusPatch} {next : Phase} (hon : OnRecord r phase h)
    (hp : p.phase = some next) : OnRecord r (some next) (⟨.patchStatus p, .ok ()⟩ :: h) where
  acknowledged y hy hset := by
    rcases List.mem_cons.mp hy with rfl | hy
    · simp [recordsPhase, hp]
    · exact hon.acknowledged y hy hset
  phase := by
    have hhead : recordsPhase ⟨.patchStatus p, .ok ()⟩ = some next := hp
    rw [phaseAfter_cons, hhead]
    rfl

theorem onRecord_nil (r : ScheduledMachine) : OnRecord r r.phase [] where
  acknowledged x hx := by cases hx
  phase := rfl

end Log

/-- What a reconcile may call, as far as the phase goes: it records one that follows the one on record,
right after an Event that names the two. -/
inductive Walks (r : ScheduledMachine) : Log → Request → Prop where
  | aside {h : Log} {q : Request} : q.setsPhase = false → Walks r h q
  | step {h : Log} {before announced : Option Phase} {next : Phase} {reason message : String}
      {inSchedule : Bool} {published : Except KubeError Unit} {now : Instant} :
      OnRecord r before h → next.follows before = true → Phase.names before announced = true →
      Walks r (⟨.now, now⟩ ::
          ⟨.publish (buildPhaseTransitionEvent announced next reason message), published⟩ :: h)
        (.patchStatus (phasePatch now next reason message inSchedule))

section Conformance

abbrev KeepsPhase {α : Type} (x : Reconcile α) : Prop := Calls (fun q => !q.setsPhase) x

variable {α β : Type} {r : ScheduledMachine} {h : Log} {phase : Option Phase}

theorem Calls.keepsPhase {x : Reconcile α} (hx : Quietly x) : KeepsPhase x := by
  refine hx.mono fun q hq => ?_
  rw [Request.setsPhase_of_steady (Request.steady_of_quiet (Request.quiet_of_calm hq))]
  rfl

theorem Phaseless.keepsPhase {x : Reconcile α} (hx : Phaseless x) : KeepsPhase x :=
  hx.mono fun _ hq => ((Bool.and_eq_true _ _).mp hq).2

/-- Only calls that keep to the graph, whatever the end. -/
abbrev Wanders (r : ScheduledMachine) (x : Reconcile α) (h : Log) : Prop :=
  Keeps (Walks r) x h (fun _ _ => True) fun _ _ => True

theorem walks_keepsPhase {x : Reconcile α} (hx : KeepsPhase x) (hon : OnRecord r phase h) :
    Keeps (Walks r) x h (fun _ h' => OnRecord r phase h') fun _ h' => OnRecord r phase h' := by
  have huses : x.run.Uses fun q => q.setsPhase = false :=
    hx.uses.mono fun _ hq => (Bool.not_eq_true' _).mp hq
  refine ⟨meets_outcome_mono (uses_run_meets huses fun _ _ _ => .aside) ?_ ?_⟩
  all_goals exact fun _ _ => hon.after

theorem wanders_keepsPhase {x : Reconcile α} (hx : KeepsPhase x) (hon : OnRecord r phase h) :
    Wanders r x h :=
  (walks_keepsPhase hx hon).weaken (fun _ _ _ => trivial) fun _ _ _ => trivial

theorem wanders_bind {x : Reconcile α} {f : α → Reconcile β} (hx : KeepsPhase x)
    (hon : OnRecord r phase h) (hf : ∀ a h', OnRecord r phase h' → Wanders r (f a) h') :
    Wanders r (x >>= f) h :=
  (walks_keepsPhase hx hon).then hf

theorem walks_recordPhase {defaultReason defaultMessage : String} {announced : Option Phase}
    {next : Phase} {reason message : Option String} {inSchedule : Bool} (hon : OnRecord r phase h)
    (hfollows : next.follows phase = true) (hnames : Phase.names phase announced = true) :
    Keeps (Walks r)
      (recordPhase defaultReason defaultMessage announced next reason message inSchedule) h
      (fun _ h' => OnRecord r (some next) h') fun _ _ => True := by
  have hpublish : Keeps (Walks r) (publishBestEffort (buildPhaseTransitionEvent announced next
      (reason.getD defaultReason) (message.getD defaultMessage))) h
      (fun _ h' => ∃ published, h' = ⟨.publish (buildPhaseTransitionEvent announced next
        (reason.getD defaultReason) (message.getD defaultMessage)), published⟩ :: h)
      fun _ _ => True :=
    keeps_ask_bind (.aside rfl) fun published => keeps_pure ⟨published, rfl⟩
  refine hpublish.bind (fun _ h₁ hh => ?_) fun _ _ _ => trivial
  obtain ⟨published, rfl⟩ := hh
  refine keeps_ask_bind (.aside rfl) fun now => ?_
  refine keeps_ask_bind (.step hon hfollows hnames) fun x => ?_
  cases x with
  | error e => exact keeps_throw trivial
  | ok _ =>
    have hon' : OnRecord r phase (⟨.now, now⟩ ::
        ⟨.publish (buildPhaseTransitionEvent announced next (reason.getD defaultReason)
          (message.getD defaultMessage)), published⟩ :: h) :=
      OnRecord.cons (OnRecord.cons hon rfl) rfl
    exact keeps_pure (hon'.recorded rfl)

theorem wanders_moveTo {announced next : Phase} {reason message : String} {inSchedule : Bool}
    {secs : Nat} (hon : OnRecord r phase h) (hfollows : next.follows phase = true)
    (hnames : Phase.names phase (some announced) = true) :
    Wanders r (moveTo announced next reason message inSchedule secs) h :=
  (walks_recordPhase hon hfollows hnames).then fun _ _ _ => keeps_pure trivial

theorem names_pending (hphase : isPending phase = true) : Phase.names phase (some .pending) = true := by
  simp [Phase.names, hphase]

theorem names_self (phase : Option Phase) : Phase.names phase phase = true := by
  simp [Phase.names]

theorem wanders_handlePendingPhase (s : Settings) (active : Bool) (hphase : isPending phase = true)
    (hon : OnRecord r phase h) : Wanders r (handlePendingPhase s r active) h := by
  have hnames := names_pending hphase
  refine wanders_bind (calls_namespaceOf r) hon fun ns h₁ hon => ?_
  split
  · exact wanders_moveTo hon (by simp [Phase.follows, hphase]) hnames
  · split
    · exact wanders_moveTo hon (by simp [Phase.follows, hphase]) hnames
    · refine wanders_bind (phaseless_addMachine s r ns).keepsPhase.attempt hon fun outcome h₂ hon => ?_
      split
      · exact wanders_moveTo hon (by simp [Phase.follows, hphase]) hnames
      · exact wanders_moveTo hon hphase hnames

theorem wanders_handleActivePhase (active : Bool) (hon : OnRecord r (some .active) h) :
    Wanders r (handleActivePhase r active) h := by
  have hshutdown : ∀ reason message h', OnRecord r (some .active) h' →
      Wanders r (startShutdown reason message) h' := fun _ _ _ hon =>
    (walks_recordPhase hon rfl (names_self _)).then fun _ _ _ => keeps_pure trivial
  refine wanders_bind (calls_namespaceOf r) hon fun ns h₁ hon => ?_
  split
  · exact hshutdown _ _ _ hon
  · split
    · exact hshutdown _ _ _ hon
    · exact wanders_bind (quietly_enrichActive r ns).keepsPhase hon fun _ _ _ => keeps_pure trivial

theorem wanders_handleShuttingDownPhase (s : Settings) (hon : OnRecord r (some .shuttingDown) h) :
    Wanders r (handleShuttingDownPhase s r) h := by
  refine wanders_bind (calls_namespaceOf r) hon fun ns h₁ hon => ?_
  refine wanders_bind (phaseless_checkGracePeriodElapsed r).keepsPhase hon fun elapsed h₂ hon => ?_
  split
  · refine wanders_bind (calls_call rfl) hon fun _ h₃ hon => ?_
    refine wanders_bind (phaseless_drainBeforeRemoval r ns).keepsPhase hon fun _ h₄ hon => ?_
    refine wanders_bind (phaseless_removeMachine s r ns).keepsPhase.attempt hon fun outcome h₅ hon => ?_
    split
    · exact wanders_moveTo hon rfl (names_self _)
    · exact wanders_moveTo hon rfl (names_self _)
  · exact keeps_pure trivial

theorem wanders_dispatchPhase (s : Settings) (active : Bool) (hon : OnRecord r r.phase h) :
    Wanders r (dispatchPhase s r active) h := by
  unfold dispatchPhase
  split
  · rename_i hphase
    exact wanders_handleActivePhase active (hphase ▸ hon)
  · rename_i hphase
    exact wanders_handleShuttingDownPhase s (hphase ▸ hon)
  · rename_i hphase
    rw [hphase] at hon
    refine wanders_bind (calls_namespaceOf r) hon fun ns h₁ hon => ?_
    split
    · exact keeps_pure trivial
    · split
      · exact keeps_pure trivial
      · exact wanders_moveTo hon rfl (names_self _)
  · rename_i hphase
    rw [hphase] at hon
    refine wanders_bind (calls_namespaceOf r) hon fun ns h₁ hon => ?_
    split
    · exact wanders_moveTo hon rfl (names_self _)
    · exact keeps_pure trivial
  · exact keeps_pure trivial
  · rename_i hphase
    rw [hphase] at hon
    exact wanders_bind (calls_namespaceOf r) hon fun ns h₁ hon =>
      wanders_moveTo hon rfl (names_self _)
  · exact wanders_bind (calls_namespaceOf r) hon fun _ _ _ => keeps_pure trivial
  · refine wanders_handlePendingPhase s active ?_ hon
    cases hphase : r.phase with
    | none => rfl
    | some phase => cases phase <;> first | rfl | simp_all

theorem wanders_handleEmergencyRemove (s : Settings) (nodeName : String) (request : ReclaimRequest)
    (hon : OnRecord r r.phase h) : Wanders r (handleEmergencyRemove s r nodeName request) h := by
  refine wanders_bind (calls_namespaceOf r) hon fun ns h₁ hon => ?_
  refine wanders_bind (quietly_publish _).keepsPhase hon fun _ h₂ hon => ?_
  refine (walks_recordPhase hon rfl (names_self _)).then fun _ h₃ hon => ?_
  refine wanders_bind (quietly_noteReclaim r).keepsPhase hon fun _ h₄ hon => ?_
  refine wanders_bind (calls_call rfl) hon fun x h₅ hon => ?_
  refine wanders_bind (calls_check x) hon fun client h₆ hon => ?_
  refine wanders_bind (phaseless_drain _ _ _).keepsPhase.attempt hon fun _ h₇ hon => ?_
  refine wanders_bind (phaseless_removeMachine s r ns).keepsPhase hon fun _ h₈ hon => ?_
  refine wanders_bind (calls_call rfl) hon fun y h₉ hon => ?_
  refine wanders_bind (calls_orKubeError y) hon fun _ h₁₀ hon => ?_
  refine wanders_bind (quietly_publish _).keepsPhase hon fun _ h₁₁ hon => ?_
  refine wanders_bind (calls_call rfl) hon fun _ h₁₂ hon => ?_
  exact (walks_recordPhase hon rfl (names_self _)).then fun _ _ _ => keeps_pure trivial

theorem walks_checkEmergencyReclaim (s : Settings) (hon : OnRecord r r.phase h) :
    Keeps (Walks r) (checkEmergencyReclaim s r) h
      (fun outcome h' => outcome = none → OnRecord r r.phase h') fun _ _ => True := by
  unfold checkEmergencyReclaim
  split
  · exact keeps_pure fun _ => hon
  · split
    · exact keeps_pure fun _ => hon
    · refine (walks_keepsPhase (calls_call rfl) hon).bind (fun x h₁ hon => ?_) fun _ _ _ => trivial
      refine (walks_keepsPhase (calls_check x) hon).bind (fun client h₂ hon => ?_) fun _ _ _ => trivial
      refine (walks_keepsPhase (calls_call rfl) hon).bind (fun answer h₃ hon => ?_) fun _ _ _ => trivial
      split
      · split
        · exact keeps_pure fun _ => hon
        · exact keeps_throw trivial
      · split
        · exact keeps_pure fun _ => hon
        · refine (wanders_handleEmergencyRemove s _ _ hon).bind (fun _ _ _ => ?_) fun _ _ _ => trivial
          exact keeps_pure fun h => by cases h

theorem wanders_handleKillSwitch (s : Settings) (hon : OnRecord r r.phase h) :
    Wanders r (handleKillSwitch s r) h := by
  have hrecord : r.phase ≠ some .terminated → ∀ h', OnRecord r r.phase h' →
      Wanders r (recordTerminated r) h' := fun hne _ hon =>
    (walks_recordPhase hon (by simpa [Phase.follows] using hne) (names_self _)).then fun _ _ _ =>
      keeps_pure trivial
  refine wanders_bind (calls_namespaceOf r) hon fun ns h₁ hon => ?_
  split
  · exact keeps_pure trivial
  · rename_i hne
    have hne : r.phase ≠ some .terminated := by simpa using hne
    split
    · exact wanders_bind (phaseless_removeMachine s r ns).keepsPhase hon fun _ h₂ => hrecord hne h₂
    · exact hrecord hne h₁ hon

theorem wanders_reconcileInner (s : Settings) (hon : OnRecord r r.phase h) :
    Wanders r (reconcileInner s r) h := by
  refine wanders_bind (calls_namespaceOf r) hon fun ns h₁ hon => ?_
  iterate 3 refine wanders_bind (calls_check _) hon fun _ _ hon => ?_
  split
  · exact wanders_handleKillSwitch s hon
  · refine (walks_checkEmergencyReclaim s hon).then fun outcome h₂ hon => ?_
    cases outcome with
    | some action => exact keeps_pure trivial
    | none =>
      refine wanders_bind (phaseless_resolveSchedule _ _).keepsPhase (hon rfl) fun verdict h₃ hon => ?_
      refine wanders_bind (phaseless_persistSpotScheduleStatus _ _ _).keepsPhase hon fun _ h₄ hon => ?_
      exact wanders_bind (calls_call rfl) hon fun _ h₅ => wanders_dispatchPhase s _

theorem keepsPhase_handleDeletion (s : Settings) (r : ScheduledMachine) :
    KeepsPhase (handleDeletion s r) := by
  have hremove : KeepsPhase (removeFinalizer r) :=
    (calls_call rfl).bind fun x => (calls_orKubeError x).bind fun _ => calls_pure _
  refine (calls_namespaceOf r).bind fun ns => ?_
  split
  · refine ((phaseless_removeMachine s r ns).keepsPhase.cleanup rfl).bind fun outcome => ?_
    split
    · exact hremove
    · exact calls_throw _
    · refine (quietly_publish _).keepsPhase.bind fun _ => ?_
      split
      · exact hremove
      · exact calls_throw _
  · exact hremove

theorem reconcile_wanders (s : Settings) (r : ScheduledMachine) :
    Wanders r (reconcileScheduledMachine s r) [] := by
  have hadd : KeepsPhase (addFinalizer r) :=
    (calls_namespaceOf r).bind fun _ => (calls_call rfl).bind fun x =>
      (calls_orKubeError x).bind fun _ => calls_pure _
  refine wanders_bind (calls_namespaceOf r) (onRecord_nil r) fun ns h₁ hon => ?_
  refine wanders_bind (calls_call rfl) hon fun leader h₂ hon => ?_
  split
  · exact keeps_pure trivial
  · split
    · exact keeps_pure trivial
    · split
      · exact wanders_keepsPhase (keepsPhase_handleDeletion s r) hon
      · split
        · exact wanders_keepsPhase hadd hon
        · exact wanders_reconcileInner s hon

end Conformance

def lifeCycleContract : Contract Request Response World (Except ReconcilerError Action) where
  answers := fun _ _ _ => True
  permits := fun w => Walks w.machine
  returns := fun _ _ _ => True

theorem lifeCycleContract_binds (w : World) :
    lifeCycleContract.Binds w [] (machineSystem.program w) :=
  (reconcile_wanders w.settings w.machine).meets.mono fun _ _ _ => trivial

def phaseGuard : MachineGuard where
  move v w := w.machine.phase = v.world.machine.phase
  start _ := True
  call _ _ _ := True
  crash _ := True

/-- The stored phase is the one the reconcile in flight has on record, unless an answer was lost. -/
structure FollowsGraph (v : MachineView) : Prop where
  phase : ∀ cur, v.current = some cur → Acknowledged cur.done →
    v.world.machine.phase = phaseAfter cur.snapshot.machine.phase cur.done

section Runs

variable {v : MachineView} {w : World} {cur : Current Request Response World} {q : Request}
  {c : Answer}

theorem phase_of_acknowledged {p : StatusPatch} {phase : Phase} (hp : p.phase = some phase)
    (hack : (recordsPhase ⟨.patchStatus p, (w.exec (.patchStatus p) c).1⟩).isSome = true) :
    (machineAfter w (.patchStatus p) c).phase = some phase ∧
      recordsPhase ⟨.patchStatus p, (w.exec (.patchStatus p) c).1⟩ = some phase := by
  cases c with
  | ok =>
    refine ⟨?_, hp⟩
    simp [machineAfter, Answer.applied, World.patchStatus, ScheduledMachine.phase, hp]
  | fail e applied => cases applied <;> cases hack

theorem FollowsGraph.called (hO : FollowsGraph v) (hcur : v.current = some cur) :
    FollowsGraph (v.called machineSystem cur q c) := by
  refine ⟨?_⟩
  rintro cur' ⟨⟩ hack
  have hack' : Acknowledged cur.done := fun x hx => hack x (List.mem_cons_of_mem _ hx)
  have hbefore := hO.phase cur hcur hack'
  show (v.world.exec q c).2.machine.phase =
    phaseAfter cur.snapshot.machine.phase (⟨q, (v.world.exec q c).1⟩ :: cur.done)
  rw [exec_machine, phaseAfter_cons]
  cases hset : q.setsPhase with
  | false =>
    rw [phase_machineAfter c hset, recordsPhase_of_setsPhase (x := ⟨q, _⟩) hset]
    exact hbefore
  | true =>
    have hsome := hack _ List.mem_cons_self hset
    cases q with
    | patchStatus p =>
      obtain ⟨phase, hp⟩ := Option.isSome_iff_exists.mp hset
      obtain ⟨hafter, hrecords⟩ := phase_of_acknowledged hp hsome
      rw [hafter, hrecords]
      rfl
    | _ => cases hset

theorem followsGraph_preserved : lifeCycleContract.Preserves machineSystem phaseGuard FollowsGraph where
  move v w hO hphase := ⟨fun cur hcur hack => hphase.trans (hO.phase cur hcur hack)⟩
  start v _ _ _ := by
    refine ⟨lifeCycleContract_binds _, ⟨?_⟩⟩
    rintro cur ⟨⟩ _
    rfl
  call v cur q c hO hcur _ _ := ⟨trivial, hO.called hcur⟩
  finish v cur a _ _ _ := ⟨fun cur' h => by cases h⟩
  crash v _ _ := ⟨fun cur' h => by cases h⟩

/-- A step of the path, from the state `c` of a run to the resource that is then stored. -/
structure Announced (c : Config Request Response World Answer (Except ReconcilerError Action))
    (after : ScheduledMachine) : Prop where
  /-- The reconcile in flight has just published an Event from the old phase to the new one, and what it
  said is what the status now says. -/
  event : ∃ cur now announced next reason message inSchedule published h,
    c.view.current = some cur ∧ Phase.names c.world.machine.phase announced = true ∧
    cur.done = ⟨.now, now⟩ ::
      ⟨.publish (buildPhaseTransitionEvent announced next reason message), published⟩ :: h ∧
    after.status = some ((phasePatch now next reason message inSchedule).apply c.world.machine.status)

/-- What becomes of the stored phase in one step of a run. -/
inductive Goes (c : Config Request Response World Answer (Except ReconcilerError Action))
    (after : ScheduledMachine) : Prop where
  | stays : after.phase = c.world.machine.phase → Goes c after
  | step {next : Phase} : after.phase = some next → next.follows c.world.machine.phase = true →
      Announced c after → Goes c after

theorem goes_of_called {c : Config Request Response World Answer (Except ReconcilerError Action)}
    (a : Answer) (hO : FollowsGraph c.view) (hcur : c.view.current = some cur)
    (hq : Walks cur.snapshot.machine cur.done q) : Goes c (c.world.exec q a).2.machine := by
  rw [exec_machine]
  generalize hdone : cur.done = done at hq
  cases hq with
  | aside hset => exact .stays (phase_machineAfter a hset)
  | @step h before announced next reason message inSchedule published now hon hfollows hnames =>
    by_cases happlied : a.applied = true
    · have hon' : OnRecord cur.snapshot.machine before cur.done := by
        rw [hdone]
        exact OnRecord.cons (OnRecord.cons hon rfl) rfl
      have hbefore : c.world.machine.phase = before :=
        (hO.phase cur hcur hon'.acknowledged).trans hon'.phase
      have hedge : next.follows c.world.machine.phase = true := hbefore ▸ hfollows
      refine .step ?_ hedge ⟨?_⟩
      · rw [phase_machineAfter_move, if_pos happlied]
      · refine ⟨cur, now, announced, next, reason, message, inSchedule, published, h, hcur, ?_, hdone, ?_⟩
        · exact hbefore ▸ hnames
        · simp [machineAfter, happlied, World.patchStatus]
    · refine .stays ?_
      rw [phase_machineAfter_move, if_neg happlied]

/-- In every run in which nobody else writes the phase, each change of the stored phase is an edge of the
graph, and the Event for it was published right before. -/
theorem phases_follow_graph (w : World) (es : List (Event World Answer)) (e : Event World Answer)
    (hes : phaseGuard.Allows machineSystem (.idle w) (es ++ [e])) :
    Goes (machineSystem.run (.idle w) es)
      (machineSystem.run (.idle w) (es ++ [e])).world.machine := by
  obtain ⟨hpast, hlast, -⟩ := Guard.allows_append.mp hes
  obtain ⟨hO, hgoverns⟩ := followsGraph_preserved.run (c := .idle w)
    ⟨fun cur h => by cases h⟩ Contract.governs_idle hpast
  rw [System.run_append]
  exact hgoverns.step_world (S := machineSystem) (P := fun w => Goes _ w.machine) hlast (.stays rfl)
    (fun _ hphase => .stays hphase) (fun cur q a hcur hq => goes_of_called a hO hcur hq) (.stays rfl)

theorem phases_follow_graph_added :
    let es := reconcileFor 2 ++ reconcileFor 15
    (machineSystem.run (.idle sampleWorld) es).world.machine.phase = none ∧
      (machineSystem.run (.idle sampleWorld) (es ++ [.next .ok])).world.machine.phase = some .active ∧
      Goes (machineSystem.run (.idle sampleWorld) es)
        (machineSystem.run (.idle sampleWorld) (es ++ [.next .ok])).world.machine := by
  intro es
  have hrun : (machineSystem.run (.idle sampleWorld) es).world.machine.phase = none ∧
      (machineSystem.run (.idle sampleWorld) (es ++ [.next .ok])).world.machine.phase =
        some .active := by
    decide +kernel
  refine ⟨hrun.1, hrun.2, phases_follow_graph sampleWorld es (.next .ok) ?_⟩
  exact Guard.allows_of_unmoved (fun _ => trivial) (fun _ _ _ => trivial) (fun _ => trivial) rfl

end Runs

end FiveSpot.Machine
