import FiveSpot.Machine.Frame

/-!
# The emergency reclaim as a loop breaker

After an emergency reclaim the machine must not come back before a user enables the schedule again.
How far a reclaim has got is read off the trace: recorded, and then disabled once the patch that
switches the schedule off has been applied. Adding a machine is safe in neither of the two.
-/

namespace FiveSpot.Machine

set_option autoImplicit false

open Effects

inductive Stage where
  | clear
  | recorded
  | disabled
  deriving DecidableEq

/-- EmergencyRemove is recorded, the controller disables the schedule, a user enables it. -/
def Stage.next (s : Stage) : MachineObs → Stage
  | .called _ (.patchStatus p) c =>
      if s = .clear ∧ c.applied = true ∧ p.phase = some .emergencyRemove then .recorded else s
  | .called _ .patchDisableSchedule c => if s = .recorded ∧ c.applied = true then .disabled else s
  | .moved w w' =>
      if s = .disabled ∧ w.machine.spec.enabled = false ∧ w'.machine.spec.enabled = true then .clear
      else s
  | _ => s

def stage : MachineTrace → Stage
  | [] => .clear
  | o :: t => (stage t).next o

namespace Stage

variable {w w' : World} {q : Request} {c : Answer} {s : Stage}

theorem next_clear (hq : q.setsPhase = false) : clear.next (.called w q c) = .clear := by
  cases q <;> simp_all [next, Request.setsPhase]

theorem recorded_of_next (h : s.next (.called w q c) = .recorded) :
    s = .recorded ∨ ∃ p, q = .patchStatus p ∧ p.phase = some .emergencyRemove ∧ c.applied = true := by
  cases q with
  | patchStatus p =>
    simp only [next] at h
    split at h
    · rename_i hnew
      exact Or.inr ⟨p, rfl, hnew.2.2, hnew.2.1⟩
    · exact Or.inl h
  | patchDisableSchedule =>
    simp only [next] at h
    split at h
    · cases h
    · exact Or.inl h
  | _ => exact Or.inl h

theorem disabled_of_next (h : s.next (.called w q c) = .disabled) :
    s = .disabled ∨ q = .patchDisableSchedule ∧ c.applied = true := by
  cases q with
  | patchStatus p =>
    simp only [next] at h
    split at h
    · cases h
    · exact Or.inl h
  | patchDisableSchedule =>
    simp only [next] at h
    split at h
    · rename_i hnew
      exact Or.inr ⟨rfl, hnew.2⟩
    · exact Or.inl h
  | _ => exact Or.inl h

theorem next_disable (hc : c.applied = true) :
    s.next (.called w .patchDisableSchedule c) ≠ .recorded := by
  cases s <;> simp [next, hc]

theorem recorded_of_moved (h : s.next (.moved w w') = .recorded) : s = .recorded := by
  simp only [next] at h
  split at h
  · cases h
  · exact h

theorem disabled_of_moved (h : s.next (.moved w w') = .disabled) :
    s = .disabled ∧ (w.machine.spec.enabled = false → w'.machine.spec.enabled = false) := by
  simp only [next] at h
  split at h
  · cases h
  · rename_i hkept
    exact ⟨h, fun hoff => by simpa [h, hoff] using hkept⟩

end Stage

def addStages : MachineTrace → List Stage
  | [] => []
  | .called _ (.info .creatingCapiResources) _ :: t => stage t :: addStages t
  | _ :: t => addStages t

theorem mem_addStages_called {w : World} {q : Request} {c : Answer} {t : MachineTrace} {s : Stage}
    (hs : s ∈ addStages (.called w q c :: t)) :
    s ∈ addStages t ∨ q = .info .creatingCapiResources ∧ s = stage t := by
  unfold addStages at hs
  split at hs
  · cases ‹_ = _›
  · cases ‹_ = _›
    rcases List.mem_cons.mp hs with rfl | hs
    · exact Or.inr ⟨rfl, rfl⟩
    · exact Or.inl hs
  · cases ‹_ = _›
    exact Or.inl hs

/-- Until the schedule has been disabled, a reconcile that finds the recorded phase also finds the
Node with its reclaim request. -/
def reclaimGuard : MachineGuard where
  move v w := StatusKept v.world w
  start _ := True
  call v q c := ∀ cur, v.current = some cur → stage v.trace = .recorded →
    cur.snapshot.machine.phase = some .emergencyRemove →
    ¬NotReclaiming cur.snapshot.machine (⟨q, (v.world.exec q c).1⟩ :: cur.done)
  crash _ := True

structure Breaking (v : MachineView) (cur : Current Request Response World) : Prop where
  phase : PhaseKept v.world cur
  pending : Steady cur.done → isPending cur.snapshot.machine.phase = true →
    cur.snapshot.machine.spec.enabled = true → stage v.trace = .clear
  disabled : ⟨.patchDisableSchedule, .ok ()⟩ ∈ cur.done → stage v.trace ≠ .recorded
  reclaiming : cur.done ≠ [] → Steady cur.done → stage v.trace = .recorded →
    cur.snapshot.machine.phase = some .emergencyRemove →
    ¬NotReclaiming cur.snapshot.machine cur.done

structure LoopBroken (v : MachineView) : Prop where
  adds : ∀ s ∈ addStages v.trace, s = .clear
  recorded : stage v.trace = .recorded → v.world.machine.phase = some .emergencyRemove ∨
    v.world.machine.phase = some .terminated
  disabled : stage v.trace = .disabled → v.world.machine.spec.enabled = false
  flight : ∀ cur, v.current = some cur → Breaking v cur

namespace LoopBroken

variable {v : MachineView} {cur : Current Request Response World} {q : Request} {c : Answer}

theorem phase_of_moves {phase : Phase} {reason : String} (hL : LoopBroken v)
    (hcur : v.current = some cur) (hstage : stage v.trace = .recorded) (hdone : cur.done ≠ [])
    (hm : Moves cur.snapshot.machine cur.done phase reason) :
    phase = .emergencyRemove ∨ phase = .terminated := by
  have hB := hL.flight cur hcur
  have hphase : NoPhase cur.done → cur.snapshot.machine.phase = some .emergencyRemove ∨
      cur.snapshot.machine.phase = some .terminated := by
    intro hn
    rw [← hB.phase hn]
    exact hL.recorded hstage
  have hpending : NoPhase cur.done → isPending cur.snapshot.machine.phase = false := by
    intro hn
    rcases hphase hn with h | h <;> rw [h] <;> rfl
  cases hm with
  | terminated => exact Or.inr rfl
  | emergencyRemove => exact Or.inl rfl
  | reclaimed _ _ _ hd => exact absurd hstage (hB.disabled hd)
  | recovered _ ht hr hs => exact absurd hr (hB.reclaiming hdone hs hstage ht)
  | disabled _ hp _ hs | closed _ hp _ _ hs =>
    rw [hpending hs.noPhase] at hp
    cases hp
  | addFailed ha hn | added ha hn =>
    have hp := ha.pending
    rw [hpending hn] at hp
    cases hp
  | removed _ ht _ hs | removeFailed _ ht hs | opened _ ht _ _ hs | reenabled _ ht _ hs
  | shutdownDisabled _ ht _ hs | shutdownClosed _ ht _ _ hs =>
    rcases hphase hs.noPhase with h | h <;> rw [ht] at h <;> cases h

theorem recorded_called (hL : LoopBroken v) (hcur : v.current = some cur)
    (hq : Permitted cur.snapshot.machine cur.done q)
    (hstage : (stage v.trace).next (.called v.world q c) = .recorded) :
    (machineAfter v.world q c).phase = some .emergencyRemove ∨
      (machineAfter v.world q c).phase = some .terminated := by
  rcases Stage.recorded_of_next hstage with hrec | ⟨p, rfl, hp, hc⟩
  · cases hset : q.setsPhase with
    | false =>
      rw [phase_machineAfter c hset]
      exact hL.recorded hrec
    | true =>
      cases hq with
      | quiet hquiet => simp [Request.setsPhase_of_steady (Request.steady_of_quiet hquiet)] at hset
      | move hnow hm =>
        rw [phase_machineAfter_move]
        split
        · rcases hL.phase_of_moves hcur hrec (List.ne_nil_of_mem hnow) hm with rfl | rfl
          · exact Or.inl rfl
          · exact Or.inr rfl
        · exact hL.recorded hrec
      | _ => cases hset
  · left
    simp [machineAfter, hc, World.patchStatus, ScheduledMachine.phase, hp]

theorem disabled_called (hL : LoopBroken v)
    (hstage : (stage v.trace).next (.called v.world q c) = .disabled) :
    (machineAfter v.world q c).spec.enabled = false := by
  rcases Stage.disabled_of_next hstage with hdis | ⟨rfl, hc⟩
  · exact enabled_machineAfter q c (hL.disabled hdis)
  · simp [machineAfter, hc, World.disableSchedule]

end LoopBroken

section Step

variable {v : MachineView} {cur : Current Request Response World} {q : Request} {c : Answer}

theorem applied_of_disable_ok {w : World} (h : (w.exec .patchDisableSchedule c).1 = .ok ()) :
    c.applied = true := by
  rcases c with _ | ⟨e, _ | _⟩
  · rfl
  · cases h
  · rfl

/-- EmergencyRemove is recorded before the schedule is disabled, never after it. -/
theorem steady_of_recording {p : StatusPatch}
    (hq : Permitted cur.snapshot.machine cur.done (.patchStatus p))
    (hp : p.phase = some .emergencyRemove) : Steady cur.done := by
  cases hq with
  | quiet hq => simp [Request.quiet, hp] at hq
  | move _ hm =>
    cases hm with
    | emergencyRemove _ _ hs => exact hs
    | _ => cases hp

theorem Breaking.called (hB : Breaking v cur) (hcur : v.current = some cur)
    (hq : Permitted cur.snapshot.machine cur.done q) (hG : reclaimGuard.call v q c) :
    Breaking (v.called machineSystem cur q c)
      ⟨cur.snapshot, ⟨q, (v.world.exec q c).1⟩ :: cur.done⟩ where
  phase := hB.phase.called q c
  pending hs hp he := by
    have hclear := hB.pending (fun x hx => hs x (List.mem_cons_of_mem _ hx)) hp he
    show (stage v.trace).next (.called v.world q c) = .clear
    rw [hclear]
    exact Stage.next_clear (hs.noPhase _ List.mem_cons_self)
  disabled hmem := by
    rcases List.mem_cons.mp hmem with heq | hdone
    · obtain ⟨rfl, hanswer⟩ := Sigma.mk.inj heq
      exact Stage.next_disable (applied_of_disable_ok (eq_of_heq hanswer).symm)
    · intro hstage
      rcases Stage.recorded_of_next hstage with hrec | ⟨p, rfl, hp, _⟩
      · exact hB.disabled hdone hrec
      · have hs := steady_of_recording hq hp _ hdone
        cases hs
  reclaiming _ hs hstage hphase := by
    rcases Stage.recorded_of_next hstage with hrec | ⟨p, rfl, hp, _⟩
    · exact hG cur hcur hrec hphase
    · have hset := hs.noPhase _ List.mem_cons_self
      simp [Request.setsPhase, hp] at hset

theorem LoopBroken.adds_called (hL : LoopBroken v) (hcur : v.current = some cur)
    (hq : Permitted cur.snapshot.machine cur.done q) :
    ∀ s ∈ addStages (.called v.world q c :: v.trace), s = .clear := by
  intro s hs
  rcases mem_addStages_called hs with hs | ⟨rfl, rfl⟩
  · exact hL.adds s hs
  · cases hq with
    | quiet hq => cases hq
    | creating ha hsteady => exact (hL.flight cur hcur).pending hsteady ha.pending ha.enabled

theorem loopBroken_preserved : machineContract.Preserves machineSystem reclaimGuard LoopBroken where
  move v w hL hu := by
    have hphase : w.machine.phase = v.world.machine.phase := hu.phase
    refine ⟨hL.adds, fun hrec => ?_, fun hdis => ?_, fun cur hcur => ?_⟩
    · show w.machine.phase = _ ∨ w.machine.phase = _
      rw [hphase]
      exact hL.recorded (Stage.recorded_of_moved hrec)
    · obtain ⟨hs, hoff⟩ := Stage.disabled_of_moved hdis
      exact hoff (hL.disabled hs)
    · have hB := hL.flight cur hcur
      refine ⟨fun hn => hphase.trans (hB.phase hn), fun hs hp he => ?_, fun hd hrec => ?_,
        fun hne hs hrec => hB.reclaiming hne hs (Stage.recorded_of_moved hrec)⟩
      · show (stage v.trace).next _ = .clear
        rw [hB.pending hs hp he]
        rfl
      · exact hB.disabled hd (Stage.recorded_of_moved hrec)
  start v hL hidle _ := by
    refine ⟨machineContract_binds _, hL.adds, hL.recorded, hL.disabled, ?_⟩
    rintro cur ⟨⟩
    refine ⟨.started v.world, fun _ hp he => ?_, fun hd => (by cases hd), fun hne => absurd rfl hne⟩
    show stage v.trace = .clear
    cases hs : stage v.trace with
    | clear => rfl
    | recorded =>
      have hp : isPending v.world.machine.phase = true := hp
      rcases hL.recorded hs with h | h <;> rw [h] at hp <;> cases hp
    | disabled =>
      have he : v.world.machine.spec.enabled = true := he
      rw [hL.disabled hs] at he
      cases he
  call v cur q c hL hcur hq hG := by
    refine ⟨trivial, hL.adds_called hcur hq, fun hrec => ?_, fun hdis => ?_, fun cur' hcur' => ?_⟩
    · rw [show (v.called machineSystem cur q c).world.machine = _ from exec_machine v.world q c]
      exact hL.recorded_called hcur hq hrec
    · rw [show (v.called machineSystem cur q c).world.machine = _ from exec_machine v.world q c]
      exact hL.disabled_called hdis
    · cases hcur'
      exact (hL.flight cur hcur).called hcur hq hG
  finish v cur a hL hcur _ := ⟨hL.adds, hL.recorded, hL.disabled, fun cur' h => by cases h⟩
  crash v hL _ := ⟨hL.adds, hL.recorded, hL.disabled, fun cur' h => by cases h⟩

/-- Once EmergencyRemove is recorded, a machine is added only after the schedule has been disabled
and enabled again. -/
theorem no_add_after_reclaim (w : World) (es : List (Event World Answer))
    (hes : reclaimGuard.Allows machineSystem (.idle w) es) :
    ∀ s ∈ addStages (machineSystem.run (.idle w) es).trace, s = .clear := by
  have hinit : LoopBroken ⟨w, [], none⟩ := by
    refine ⟨fun s hs => (by cases hs), fun h => (by cases h), fun h => (by cases h), ?_⟩
    rintro cur ⟨⟩
  exact (loopBroken_preserved.run_idle hinit hes).adds

end Step

section Runs

/-- A Node is known, and every read so far found it with its reclaim request. -/
def stillReclaiming (r : ScheduledMachine) (h : Log) : Bool :=
  r.nodeRef.any (fun nodeRef => !nodeRef.name.isEmpty) && h.all fun
    | ⟨.getNode _ _, .ok node⟩ => (nodeReclaimRequest node).isSome
    | ⟨.getNode _ _, .error e⟩ => !e.isNotFound
    | _ => true

theorem not_notReclaiming {r : ScheduledMachine} {h : Log} (hh : stillReclaiming r h = true) :
    ¬NotReclaiming r h := by
  obtain ⟨href, hall⟩ := (Bool.and_eq_true _ _).mp hh
  have hall := List.all_eq_true.mp hall
  rintro (hnone | ⟨nodeRef, client, x, _, hmem, hx⟩)
  · cases hr : r.nodeRef with
    | none => simp [hr] at href
    | some nodeRef => simp [hr, hnone nodeRef hr] at href
  · have hread := hall _ hmem
    cases x with
    | ok node =>
      have hread : (nodeReclaimRequest node).isSome = true := hread
      rw [show nodeReclaimRequest node = none from hx] at hread
      cases hread
    | error e =>
      have hread : (!e.isNotFound) = true := hread
      rw [show e.isNotFound = true from hx] at hread
      cases hread

def reclaimTests : Tests reclaimGuard where
  start _ := true
  call v q c := stage v.trace != .recorded || v.current.all fun cur =>
    stillReclaiming cur.snapshot.machine (⟨q, (v.world.exec q c).1⟩ :: cur.done)
  start_sound _ _ := trivial
  call_sound v q c h cur hcur hrec _ := by
    simp only [hrec, hcur, bne_self_eq_false, Bool.false_or, Option.all_some] at h
    exact not_notReclaiming h
  crash _ := true
  crash_sound _ _ := trivial

def sampleRequested : World :=
  requestSample sampleJoined.world

/-- The process ends after the objects were deleted, before the schedule is disabled. -/
def sampleCut : List (Event World Answer) := reconcileFor 15 ++ [.crash]

theorem admits_enableSample (c : Config Request Response World Answer (Except ReconcilerError Action)) :
    reclaimGuard.Admits c (.move (enableSample c.world)) := ⟨rfl⟩

/-- The next reconcile repeats the reclaim. -/
def sampleReclaimed : Config Request Response World Answer (Except ReconcilerError Action) :=
  machineSystem.run (.idle sampleRequested) (sampleCut ++ reconcileFor 30)

/-- The same, and then a user enables the schedule again. -/
def sampleRepeated : List (Event World Answer) :=
  sampleCut ++ reconcileFor 30 ++
    .move (enableSample sampleReclaimed.world) :: (reconcileFor 12 ++ reconcileFor 20)

theorem one_add_after_repeated_reclaim :
    addStages (machineSystem.run (.idle sampleRequested) sampleRepeated).trace = [.clear] ∧
      ∀ s ∈ addStages (machineSystem.run (.idle sampleRequested) sampleRepeated).trace,
        s = .clear := by
  have hrun : addStages (machineSystem.run (.idle sampleRequested) sampleRepeated).trace = [.clear] ∧
      reclaimTests.passAll machineSystem (.idle sampleRequested) (sampleCut ++ reconcileFor 30) = true ∧
      reclaimTests.passAll machineSystem (machineSystem.step sampleReclaimed
        (.move (enableSample sampleReclaimed.world))) (reconcileFor 12 ++ reconcileFor 20) = true := by
    decide +kernel
  refine ⟨hrun.1, no_add_after_reclaim sampleRequested sampleRepeated ?_⟩
  exact Tests.allows_move (admits_enableSample sampleReclaimed) hrun.2

def loseNodeSample (w : World) : World := { w with nodes := fun _ _ => none }

/-- If the Node is gone by then, recovery leaves the schedule enabled and the machine comes back. -/
theorem add_before_disable :
    let c := machineSystem.run (.idle sampleRequested) sampleCut
    let c' := machineSystem.run c (.move (loseNodeSample c.world) ::
      (reconcileFor 12 ++ reconcileFor 12 ++ reconcileFor 20))
    addStages c'.trace = [.recorded] ∧ c'.world.machine.phase = some .active := by
  decide +kernel

end Runs

end FiveSpot.Machine
