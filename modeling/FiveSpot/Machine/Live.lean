import FiveSpot.Machine.Progress

/-!
# Active and the Machine behind it

A resource is recorded as Active when its three objects have been asked for, and an answer that they
exist counts. From then on the Machine is read and never made again. So Active stands for a live
Machine as long as nobody else takes the Machine away, and a Machine that is lost stays lost.
-/

namespace FiveSpot.Machine

set_option autoImplicit false

open Effects

def liveMachine (w : World) : Bool :=
  w.machine.ns.any fun ns => isLive (w.objects (machineKey ns w.machine.name))

theorem liveMachine_exec {w : World} {q : Request} (c : Answer)
    (hq : ∀ version k, q ≠ .delete version k) (hl : liveMachine w = true) :
    liveMachine (w.exec q c).2 = true := by
  obtain ⟨ns, hns, hlive⟩ := (Option.any_eq_true _ _).mp hl
  have hsame := (sameIdentity_machineAfter w q c).sameName
  unfold liveMachine
  rw [exec_machine, exec_objects, hsame.ns, hsame.name, hns]
  exact isLive_objectsAfter hq hlive

theorem added_of_moves_active {r : ScheduledMachine} {h : Log} {reason : String}
    (hm : Moves r h .active reason) : Adding r h ∧ NoPhase h ∧ Made r h := by
  cases hm with
  | added ha hn hmade => exact ⟨ha, hn, hmade⟩

theorem not_noPhase_of_recorded {h : Log} {phase : Phase} (hr : Recorded h phase) : ¬NoPhase h := by
  obtain ⟨p, hp, hphase⟩ := hr
  intro hn
  have hset := hn _ hp
  simp [Request.setsPhase, hphase] at hset

/--
When Active stands for a live Machine. The status and the name of the resource are the controller's
and a deletion is not withdrawn; while the resource is Active or being reconciled nobody else takes
the Machine away; a create of the Machine is answered with 409 only if it is live; and the kill
switch is released neither during a reconcile that it started nor when it has cost an active resource
its Machine.
-/
def liveGuard : MachineGuard where
  move v w := StatusKept v.world w ∧ SameName v.world.machine w.machine ∧
    (v.world.machine.deletionTimestamp.isSome = true → w.machine.deletionTimestamp.isSome = true) ∧
    (v.current.isSome = true ∨ v.world.machine.phase = some .active →
      liveMachine v.world = true → liveMachine w = true) ∧
    (v.world.machine.spec.killSwitch = true → w.machine.spec.killSwitch = false →
      (∀ cur, v.current = some cur → cur.snapshot.machine.spec.killSwitch = false) ∧
        (v.world.machine.phase = some .active → liveMachine v.world = true))
  start _ := True
  call v q c := ∀ ns version body e, v.world.machine.ns = some ns →
    q = .create version (machineKey ns v.world.machine.name) body →
    (v.world.exec (.create version (machineKey ns v.world.machine.name) body) c).1 = .error e →
    e.isAlreadyExists = true → liveMachine v.world = true
  crash _ := True

/-- What holds of a reconcile in flight and the stored resource. -/
structure Backed (w : World) (cur : Current Request Response World) : Prop where
  named : SameName cur.snapshot.machine w.machine
  phase : PhaseKept w cur
  deleted : cur.snapshot.machine.deletionTimestamp.isSome = true →
    w.machine.deletionTimestamp.isSome = true
  killed : cur.snapshot.machine.spec.killSwitch = true → w.machine.spec.killSwitch = true
  leaving : cur.snapshot.machine.phase = some .shuttingDown → w.machine.phase ≠ some .active
  announced : Recorded cur.done .emergencyRemove → w.machine.phase ≠ some .active
  made : ∀ ns, cur.snapshot.machine.ns = some ns → NoPhase cur.done →
    Created cur.done (machineKey ns cur.snapshot.machine.name) → liveMachine w = true

structure Running (w : World) : Prop where
  active : w.machine.phase = some .active
  live : w.machine.deletionTimestamp = none
  killOff : w.machine.spec.killSwitch = false

structure ActiveIsLive (v : MachineView) : Prop where
  running : Running v.world → liveMachine v.world = true
  flight : ∀ cur, v.current = some cur → Backed v.world cur

section Step

variable {v : MachineView} {w : World} {cur : Current Request Response World} {q : Request}
  {c : Answer}

theorem Backed.started (w : World) : Backed w ⟨w, []⟩ where
  named := ⟨rfl, rfl⟩
  phase := .started w
  deleted := id
  killed := id
  leaving h ha := by cases h.symm.trans ha
  announced := by
    rintro ⟨p, hp, _⟩
    cases hp
  made := by
    rintro ns _ _ ⟨_, _, _, hx, _⟩
    cases hx

theorem Backed.not_running (hB : Backed w cur) (hr : Removing cur.snapshot.machine cur.done) :
    ¬Running w := by
  rintro ⟨hactive, hlive, hkill⟩
  cases hr with
  | deleted hd =>
    have hd := hB.deleted hd
    rw [hlive] at hd
    cases hd
  | killed hk => cases hkill.symm.trans (hB.killed hk.killOn)
  | reclaimed _ _ hrec => exact hB.announced hrec hactive
  | elapsed hphase => exact hB.leaving hphase hactive

theorem not_delete_of_created {r : ScheduledMachine} {h : Log} {k : ObjectKey} (hc : Created h k)
    (hq : Permitted r h q) : ∀ version k', q ≠ .delete version k' := by
  obtain ⟨_, _, _, hx, _⟩ := hc
  rintro version k' rfl
  cases hq with
  | quiet hq => cases hq
  | delete _ hn =>
    have hcreate := hn _ hx
    cases hcreate

theorem Backed.not_delete (hB : Backed w cur) (hw : Running w)
    (hq : Permitted cur.snapshot.machine cur.done q) : ∀ version k, q ≠ .delete version k := by
  rintro version k rfl
  cases hq with
  | quiet hq => cases hq
  | delete _ _ hr => exact hB.not_running hr hw

theorem not_active_called (hq : Permitted cur.snapshot.machine cur.done q)
    (hw : w.machine.phase ≠ some .active)
    (hno : ¬(isPending cur.snapshot.machine.phase = true ∧ NoPhase cur.done)) :
    (w.exec q c).2.machine.phase ≠ some .active := by
  rw [exec_machine]
  intro hphase
  rcases moves_of_phase_called hq hphase with hphase | ⟨reason, hm⟩
  · exact hw hphase
  · obtain ⟨ha, hn, _⟩ := added_of_moves_active hm
    exact hno ⟨ha.pending, hn⟩

theorem Backed.made_called (hB : Backed v.world cur)
    (hq : Permitted cur.snapshot.machine cur.done q) (hG : liveGuard.call v q c) (ns : String)
    (hns : cur.snapshot.machine.ns = some ns)
    (hn : NoPhase (⟨q, (v.world.exec q c).1⟩ :: cur.done))
    (hc : Created (⟨q, (v.world.exec q c).1⟩ :: cur.done) (machineKey ns cur.snapshot.machine.name)) :
    liveMachine (v.world.exec q c).2 = true := by
  have hname := hB.named.name
  have hns' : v.world.machine.ns = some ns := hB.named.ns.trans hns
  obtain ⟨version, body, x, hx, hdone⟩ := hc
  rcases List.mem_cons.mp hx with heq | hx
  · obtain ⟨rfl, hanswer⟩ := Sigma.mk.inj heq
    obtain rfl := eq_of_heq hanswer
    rw [← hname] at hdone ⊢
    cases hanswer' : (v.world.exec (.create version
        (machineKey ns v.world.machine.name) body) c).1 with
    | ok _ =>
      have hsame := (sameIdentity_machineAfter v.world
        (.create version (machineKey ns v.world.machine.name) body) c).sameName
      unfold liveMachine
      rw [exec_machine, exec_objects, hsame.ns, hsame.name, hns']
      exact isLive_created hanswer'
    | error e =>
      rw [hanswer'] at hdone
      refine liveMachine_exec c (by simp) (hG ns version body e hns' ?_ hanswer' hdone)
      rw [hname]
  · have hmade : Created cur.done (machineKey ns cur.snapshot.machine.name) :=
      ⟨version, body, x, hx, hdone⟩
    refine liveMachine_exec c (not_delete_of_created hmade hq) (hB.made ns hns ?_ hmade)
    exact fun y hy => hn y (List.mem_cons_of_mem _ hy)

theorem Backed.called (hB : Backed v.world cur)
    (hq : Permitted cur.snapshot.machine cur.done q) (hG : liveGuard.call v q c) :
    Backed (v.world.exec q c).2 ⟨cur.snapshot, ⟨q, (v.world.exec q c).1⟩ :: cur.done⟩ where
  named := by
    rw [exec_machine]
    exact hB.named.trans (sameIdentity_machineAfter v.world q c).sameName
  phase := hB.phase.called q c
  deleted := by
    rw [exec_machine, deletionTimestamp_machineAfter]
    exact hB.deleted
  killed := by
    rw [exec_machine, killSwitch_machineAfter]
    exact hB.killed
  leaving hphase := by
    refine not_active_called hq (hB.leaving hphase) fun hadd => ?_
    have hp := hadd.1
    rw [hphase] at hp
    cases hp
  announced hrec := by
    obtain ⟨p, hp, hphase⟩ := hrec
    rcases List.mem_cons.mp hp with heq | hp
    · obtain ⟨rfl, hanswer⟩ := Sigma.mk.inj heq
      obtain ⟨rfl, _⟩ := writeAnswer_fst_eq_ok (eq_of_heq hanswer).symm
      rw [exec_machine]
      simp [machineAfter, Answer.applied, World.patchStatus, ScheduledMachine.phase, hphase]
    · have hrec : Recorded cur.done .emergencyRemove := ⟨p, hp, hphase⟩
      exact not_active_called hq (hB.announced hrec) fun hadd =>
        not_noPhase_of_recorded hrec hadd.2
  made := hB.made_called hq hG

theorem ActiveIsLive.running_called (hL : ActiveIsLive v) (hcur : v.current = some cur)
    (hq : Permitted cur.snapshot.machine cur.done q) (hw : Running (v.world.exec q c).2) :
    liveMachine (v.world.exec q c).2 = true := by
  have hB := hL.flight cur hcur
  obtain ⟨hactive, hlive, hkill⟩ := hw
  rw [exec_machine] at hactive
  rw [exec_machine, deletionTimestamp_machineAfter] at hlive
  rw [exec_machine, killSwitch_machineAfter] at hkill
  rcases moves_of_phase_called hq hactive with hbefore | ⟨reason, hm⟩
  · have hrunning : Running v.world := ⟨hbefore, hlive, hkill⟩
    exact liveMachine_exec c (hB.not_delete hrunning hq) (hL.running hrunning)
  · obtain ⟨ha, hn, hmade⟩ := added_of_moves_active hm
    obtain ⟨ns, hns⟩ := Option.isSome_iff_exists.mp ha.named
    have hcreated := hmade _ ((mem_ownKeys hns _).mpr (Or.inl rfl))
    exact liveMachine_exec c (not_delete_of_created hcreated hq) (hB.made ns hns hn hcreated)

theorem Backed.moved (hB : Backed v.world cur) (hcur : v.current = some cur)
    (hG : liveGuard.move v w) : Backed w cur := by
  obtain ⟨hstatus, hsame, hdeleted, hlive, hkill⟩ := hG
  refine ⟨hB.named.trans hsame, fun hn => hstatus.phase.trans (hB.phase hn),
    fun hd => hdeleted (hB.deleted hd), fun hk => ?_, fun hl => ?_, fun hrec => ?_,
    fun ns hns hn hc => hlive (Or.inl (by simp [hcur])) (hB.made ns hns hn hc)⟩
  · cases hw : w.machine.spec.killSwitch with
    | true => rfl
    | false => exact absurd ((hkill (hB.killed hk) hw).1 cur hcur) (by simp [hk])
  · rw [hstatus.phase]
    exact hB.leaving hl
  · rw [hstatus.phase]
    exact hB.announced hrec

theorem ActiveIsLive.running_moved (hL : ActiveIsLive v) (hG : liveGuard.move v w)
    (hw : Running w) : liveMachine w = true := by
  obtain ⟨hstatus, _, hdeleted, hlive, hkill⟩ := hG
  have hactive : v.world.machine.phase = some .active := hstatus.phase.symm.trans hw.active
  refine hlive (Or.inr hactive) ?_
  cases hk : v.world.machine.spec.killSwitch with
  | true => exact (hkill hk hw.killOff).2 hactive
  | false =>
    refine hL.running ⟨hactive, ?_, hk⟩
    cases hd : v.world.machine.deletionTimestamp with
    | none => rfl
    | some stamp =>
      have hsome := hdeleted (by simp [hd])
      rw [hw.live] at hsome
      cases hsome

theorem activeIsLive_preserved :
    machineContract.Preserves machineSystem liveGuard ActiveIsLive where
  move v w hL hG :=
    ⟨hL.running_moved hG, fun cur hcur => (hL.flight cur hcur).moved hcur hG⟩
  start v hL _ _ := by
    refine ⟨machineContract_binds _, hL.running, ?_⟩
    rintro cur ⟨⟩
    exact .started v.world
  call v cur q c hL hcur hq hG := by
    refine ⟨trivial, hL.running_called hcur hq, ?_⟩
    rintro cur' ⟨⟩
    exact (hL.flight cur hcur).called hq hG
  finish v cur a hL _ _ := ⟨hL.running, fun cur' h => by cases h⟩
  crash v hL _ := ⟨fun hw => hL.running ⟨hw.active, hw.live, hw.killOff⟩, fun cur' h => by cases h⟩

/-- A resource that becomes Active has a live Machine for as long as it runs. -/
theorem active_has_live_machine (w : World) (es : List (Event World Answer))
    (hw : w.machine.phase ≠ some .active) (hes : liveGuard.Allows machineSystem (.idle w) es)
    (hrunning : Running (machineSystem.run (.idle w) es).world) :
    liveMachine (machineSystem.run (.idle w) es).world = true := by
  have hinit : ActiveIsLive ⟨w, [], none⟩ :=
    ⟨fun hr => absurd hr.active hw, fun cur h => by cases h⟩
  exact (activeIsLive_preserved.run_idle hinit hes).running hrunning

end Step

section Stranded

variable {v : MachineView} {cur : Current Request Response World} {q : Request} {c : Answer}

/-- Good circumstances in which nobody else makes the Machine. -/
def strandedGuard : MachineGuard where
  move v w := wellGuard.move v w ∧ SameName v.world.machine w.machine ∧ w.objects = v.world.objects
  start := wellGuard.start
  call := wellGuard.call
  crash := wellGuard.crash

theorem not_composed_of_good {w : World} {h : Log} (hh : ∀ x ∈ h, Good w x.1 x.2) :
    ¬Composed w.machine h false := by
  rintro ⟨verdict, hheard, hcompose⟩
  rw [composeShouldBeActive_eq] at hcompose
  cases hheard with
  | noKind hmem =>
    have hgood := hh _ hmem
    cases hgood
  | noObject hmem =>
    obtain ⟨object, heq, _⟩ := hh _ hmem
    cases heq
  | object hmem =>
    obtain ⟨object, heq, hactive⟩ := hh _ hmem
    cases heq
    rw [show (verdictFromStatus _).isActive? = some true by simpa [saysActive] using hactive]
      at hcompose
    cases hcompose

theorem not_reclaiming_of_good {w : World} {h : Log} (hh : ∀ x ∈ h, Good w x.1 x.2) :
    ¬Reclaiming w.machine h := by
  rintro ⟨nodeRef, client, node, _, _, hmem, hrequest⟩
  rcases hh _ hmem with ⟨node', heq, hnone⟩ | ⟨e, heq, _⟩
  · cases heq
    simp [hnone] at hrequest
  · cases heq

/-- An active resource whose Machine is gone, and a reconcile of it that hears nothing bad. -/
structure Stranded (v : MachineView) : Prop where
  active : v.world.machine.phase = some .active
  absent : ∀ ns, v.world.machine.ns = some ns →
    v.world.objects (machineKey ns v.world.machine.name) = none
  flight : ∀ cur, v.current = some cur → Sound cur.snapshot ∧
    cur.snapshot.machine.phase = some .active ∧ ∀ x ∈ cur.done, Good cur.snapshot x.1 x.2

theorem Stranded.inert (hS : Stranded v) (hcur : v.current = some cur)
    (hq : Permitted cur.snapshot.machine cur.done q) : q.isCreate = false ∧ q.setsPhase = false := by
  obtain ⟨hsound, hphase, hgood⟩ := hS.flight cur hcur
  have hpending : isPending cur.snapshot.machine.phase = false := by
    rw [hphase]
    rfl
  cases hq with
  | quiet hq =>
    have hsteady := Request.steady_of_quiet hq
    exact ⟨Request.isCreate_of_steady hsteady, Request.setsPhase_of_steady hsteady⟩
  | create ha => cases hpending.symm.trans ha.pending
  | move _ hm =>
    cases hm with
    | terminated hk => cases hsound.killOff.symm.trans hk.killOn
    | emergencyRemove _ hr | reclaimed _ hr => exact absurd hr (not_reclaiming_of_good hgood)
    | disabled _ hp | closed _ hp => cases hpending.symm.trans hp
    | addFailed ha | added ha => cases hpending.symm.trans ha.pending
    | shutdownDisabled _ _ he => cases hsound.enabled.symm.trans he
    | shutdownClosed _ _ _ hc => exact absurd hc (not_composed_of_good hgood)
    | recovered _ hp | removed _ hp | removeFailed _ hp | opened _ hp | reenabled _ hp =>
      cases hphase.symm.trans hp
  | addFinalizer | dropFinalizer | creating | elapsed | delete | disableSchedule => exact ⟨rfl, rfl⟩

theorem stranded_preserved : machineContract.Preserves machineSystem strandedGuard Stranded where
  move v w hS hG := by
    obtain ⟨⟨hstatus, _⟩, hsame, hobjects⟩ := hG
    refine ⟨hstatus.phase.trans hS.active, fun ns hns => ?_, hS.flight⟩
    show w.objects (machineKey ns w.machine.name) = none
    rw [hobjects, hsame.name]
    exact hS.absent ns (hsame.ns.symm.trans hns)
  start v hS _ hsound := by
    refine ⟨machineContract_binds _, hS.active, hS.absent, ?_⟩
    rintro cur ⟨⟩
    exact ⟨hsound, hS.active, fun x hx => by cases hx⟩
  call v cur q c hS hcur hq hG := by
    obtain ⟨rfl, hfavours⟩ := hG
    obtain ⟨hcreate, hset⟩ := hS.inert hcur hq
    obtain ⟨hsound, hphase, hgood⟩ := hS.flight cur hcur
    have hsame := (sameIdentity_machineAfter v.world q .ok).sameName
    refine ⟨trivial, ?_, fun ns hns => ?_, ?_⟩
    · show (v.world.exec q .ok).2.machine.phase = _
      rw [exec_machine, phase_machineAfter .ok hset]
      exact hS.active
    · show (v.world.exec q .ok).2.objects (machineKey ns (v.world.exec q .ok).2.machine.name) = none
      have hns : (v.world.exec q .ok).2.machine.ns = some ns := hns
      rw [exec_machine] at hns ⊢
      rw [exec_objects, hsame.name]
      exact absent_objectsAfter hcreate (hS.absent ns (hsame.ns.symm.trans hns))
    · rintro cur' ⟨⟩
      refine ⟨hsound, hphase, fun x hx => ?_⟩
      rcases List.mem_cons.mp hx with rfl | hx
      · exact good_exec (hfavours cur hcur)
      · exact hgood x hx
  finish v cur a hS _ _ := ⟨hS.active, hS.absent, fun cur' h => by cases h⟩
  crash v hS hG := hG.elim

theorem stranded_stays {w : World} {es : List (Event World Answer)}
    (hactive : w.machine.phase = some .active)
    (habsent : ∀ ns, w.machine.ns = some ns → w.objects (machineKey ns w.machine.name) = none)
    (hes : strandedGuard.Allows machineSystem (.idle w) es) :
    liveMachine (machineSystem.run (.idle w) es).world = false := by
  have hS := stranded_preserved.run_idle (w := w) ⟨hactive, habsent, fun cur h => by cases h⟩ hes
  unfold liveMachine
  cases hns : (machineSystem.run (.idle w) es).world.machine.ns with
  | none => rfl
  | some ns =>
    have hnone := hS.absent ns hns
    simp only [Config.view] at hnone
    simp [hnone, isLive]

end Stranded

section Runs

def freshOrLive (w : World) (q : Request) (c : Answer) : Bool :=
  match q with
  | .create version k body =>
      match (w.exec (.create version k body) c).1 with
      | .ok _ => true
      | .error e => !e.isAlreadyExists || liveMachine w
  | _ => true

def liveTests : Tests liveGuard where
  start _ := true
  call v q c := freshOrLive v.world q c
  start_sound _ _ := trivial
  call_sound v q c h := by
    rintro ns version body e _ rfl hanswer hexists
    simpa [freshOrLive, hanswer, hexists] using h
  crash _ := true
  crash_sound _ _ := trivial

def sampleKept : List (Event World Answer) := reconcileFor 2 ++ reconcileFor 20 ++ reconcileFor 5

theorem added_machine_is_live :
    (machineSystem.run (.idle sampleWorld) sampleKept).world.machine.phase = some .active ∧
      liveMachine (machineSystem.run (.idle sampleWorld) sampleKept).world = true := by
  have hend : (machineSystem.run (.idle sampleWorld) sampleKept).world.machine.phase = some .active ∧
      (machineSystem.run (.idle sampleWorld) sampleKept).world.machine.deletionTimestamp = none ∧
      (machineSystem.run (.idle sampleWorld) sampleKept).world.machine.spec.killSwitch = false ∧
      liveTests.passAll machineSystem (.idle sampleWorld) sampleKept = true := by
    decide +kernel
  obtain ⟨hactive, hundeleted, hkillOff, hpass⟩ := hend
  refine ⟨hactive, active_has_live_machine sampleWorld sampleKept (by decide) (Tests.allows hpass) ?_⟩
  exact ⟨hactive, hundeleted, hkillOff⟩

def strandedTests : Tests strandedGuard where
  start := wellTests.start
  call := wellTests.call
  start_sound := wellTests.start_sound
  call_sound := wellTests.call_sound
  crash := wellTests.crash
  crash_sound := wellTests.crash_sound

/-- Somebody deleted the objects of an active resource. Six reconciles in good circumstances do not
bring the Machine back, and neither does any other number of them. -/
theorem active_without_machine :
    let w := goneSample sampleAdded.world
    let es := (List.replicate 6 (reconcileFor 5)).flatten
    w.machine.phase = some .active ∧ strandedGuard.Allows machineSystem (.idle w) es ∧
      finishedCount (machineSystem.run (.idle w) es).trace = 6 ∧
      ∀ es', strandedGuard.Allows machineSystem (.idle w) es' →
        liveMachine (machineSystem.run (.idle w) es').world = false := by
  intro w es
  have hrun : w.machine.phase = some .active ∧ strandedTests.passAll machineSystem (.idle w) es = true ∧
      finishedCount (machineSystem.run (.idle w) es).trace = 6 := by
    decide +kernel
  obtain ⟨hactive, hpass, hcount⟩ := hrun
  exact ⟨hactive, Tests.allows hpass, hcount, fun es' => stranded_stays hactive fun _ _ => rfl⟩

end Runs

end FiveSpot.Machine
