import FiveSpot.Machine.Frame

/-!
# Terminated as a final phase

The kill switch is meant to end the life of a machine: the handler of the phase does nothing. What
runs before the handler is the kill switch itself, which leaves a terminated resource alone, and the
emergency reclaim, which does not look at the phase.
-/

namespace FiveSpot.Machine

set_option autoImplicit false

open Effects

def creates : MachineTrace → List ObjectKey
  | [] => []
  | .called _ (.create _ k _) _ :: t => k :: creates t
  | _ :: t => creates t

theorem creates_called {w : World} {q : Request} {c : Answer} {t : MachineTrace}
    (hq : q.isCreate = false) : creates (.called w q c :: t) = creates t := by
  cases q with
  | create version k body => cases hq
  | _ => rfl

/-- Nobody else writes the phase, and no reconcile that starts on a terminated resource finds the
Node of its status with a reclaim request while the kill switch is off. -/
def terminalGuard : MachineGuard where
  move v w := w.machine.phase = v.world.machine.phase
  start _ := True
  call v q c := ∀ cur, v.current = some cur → cur.snapshot.machine.phase = some .terminated →
    cur.snapshot.machine.spec.killSwitch = false →
    ¬Reclaiming cur.snapshot.machine (⟨q, (v.world.exec q c).1⟩ :: cur.done)
  crash _ := True

/-- What a reconcile in flight knows of a terminated resource. -/
structure Resting (w : World) (cur : Current Request Response World) : Prop where
  phase : PhaseKept w cur
  recorded : w.machine.phase = some .terminated → NoPhase cur.done ∨ Killed cur.snapshot.machine
  quiet : cur.snapshot.machine.phase = some .terminated → Governed cur.snapshot.machine →
    ¬Reclaiming cur.snapshot.machine cur.done

structure Terminal (v : MachineView) : Prop where
  flight : ∀ cur, v.current = some cur → Resting v.world cur

section Step

variable {v : MachineView} {w : World} {cur : Current Request Response World} {q : Request}
  {c : Answer}

theorem Resting.started (w : World) : Resting w ⟨w, []⟩ where
  phase := .started w
  recorded _ := Or.inl fun x hx => by cases hx
  quiet := by
    rintro _ _ ⟨_, _, _, _, _, hmem, _⟩
    cases hmem

theorem Resting.moved {w' : World} (hR : Resting w cur)
    (hphase : w'.machine.phase = w.machine.phase) : Resting w' cur where
  phase hn := hphase.trans (hR.phase hn)
  recorded ht := hR.recorded (hphase ▸ ht)
  quiet := hR.quiet

theorem Resting.not_moves {phase : Phase} {reason : String} (hR : Resting w cur)
    (ht : w.machine.phase = some .terminated) :
    ¬Moves cur.snapshot.machine cur.done phase reason := by
  intro hm
  have hkept : NoPhase cur.done → cur.snapshot.machine.phase = some .terminated :=
    fun hn => (hR.phase hn).symm.trans ht
  -- a reconcile that recorded the phase itself was started by the kill switch
  have hsnapshot : Governed cur.snapshot.machine →
      cur.snapshot.machine.phase = some .terminated := by
    intro hg
    rcases hR.recorded ht with hn | hk
    · exact hkept hn
    · cases hg.killOff.symm.trans hk.killOn
  cases hm with
  | terminated _ hne hs => exact hne (hkept hs.noPhase)
  | emergencyRemove hg hr | reclaimed hg hr => exact hR.quiet (hsnapshot hg) hg hr
  | disabled hg hp | closed hg hp =>
    rw [hsnapshot hg] at hp
    cases hp
  | addFailed ha | added ha =>
    have hp := ha.pending
    rw [hsnapshot ha.governed] at hp
    cases hp
  | recovered hg hp | removed hg hp | removeFailed hg hp | opened hg hp | reenabled hg hp
  | shutdownDisabled hg hp | shutdownClosed hg hp =>
    rw [hsnapshot hg] at hp
    cases hp

theorem Resting.inert (hR : Resting w cur) (hq : Permitted cur.snapshot.machine cur.done q)
    (ht : w.machine.phase = some .terminated) : q.isCreate = false ∧ q.setsPhase = false := by
  cases hq with
  | quiet hq =>
    have hsteady := Request.steady_of_quiet hq
    exact ⟨Request.isCreate_of_steady hsteady, Request.setsPhase_of_steady hsteady⟩
  | create ha =>
    rcases hR.recorded ht with hn | hk
    · have hp := ha.pending
      rw [← hR.phase hn, ht] at hp
      cases hp
    · cases ha.governed.killOff.symm.trans hk.killOn
  | move _ hm => exact absurd hm (hR.not_moves ht)
  | addFinalizer | dropFinalizer | creating | elapsed | delete | disableSchedule => exact ⟨rfl, rfl⟩

theorem Resting.called (hR : Resting v.world cur) (hcur : v.current = some cur)
    (hq : Permitted cur.snapshot.machine cur.done q) (hG : terminalGuard.call v q c) :
    Resting (v.world.exec q c).2 ⟨cur.snapshot, ⟨q, (v.world.exec q c).1⟩ :: cur.done⟩ where
  phase := hR.phase.called q c
  recorded ht := by
    rw [exec_machine] at ht
    rcases moves_of_phase_called hq ht with hbefore | ⟨reason, hm⟩
    · have hset := (hR.inert hq hbefore).2
      refine (hR.recorded hbefore).imp (fun hn x hx => ?_) id
      rcases List.mem_cons.mp hx with rfl | hx
      · exact hset
      · exact hn x hx
    · cases hm with
      | terminated hk => exact Or.inr hk
  quiet hphase hg := hG cur hcur hphase hg.killOff

theorem terminal_preserved :
    machineContract.Preserves machineSystem terminalGuard Terminal where
  move v w hT hphase := ⟨fun cur hcur => (hT.flight cur hcur).moved hphase⟩
  start v _ _ _ := by
    refine ⟨machineContract_binds _, ⟨?_⟩⟩
    rintro cur ⟨⟩
    exact .started v.world
  call v cur q c hT hcur hq hG := by
    refine ⟨trivial, ⟨?_⟩⟩
    rintro cur' ⟨⟩
    exact (hT.flight cur hcur).called hcur hq hG
  finish v cur a _ _ _ := ⟨fun cur' h => by cases h⟩
  crash v _ _ := ⟨fun cur' h => by cases h⟩

/-- From here on the resource is terminated and `ks` were the last objects asked for. -/
structure Absorbed (ks : List ObjectKey) (v : MachineView) : Prop where
  terminal : Terminal v
  phase : v.world.machine.phase = some .terminated
  creates : creates v.trace = ks

theorem absorbed_preserved (ks : List ObjectKey) :
    machineContract.Preserves machineSystem terminalGuard (Absorbed ks) where
  move v w hA hphase :=
    ⟨terminal_preserved.move v w hA.terminal hphase, hphase.trans hA.phase, hA.creates⟩
  start v hA hidle hG := by
    obtain ⟨hbinds, hT⟩ := terminal_preserved.start v hA.terminal hidle hG
    exact ⟨hbinds, hT, hA.phase, hA.creates⟩
  call v cur q c hA hcur hq hG := by
    have hinert := (hA.terminal.flight cur hcur).inert hq hA.phase
    refine ⟨trivial, (terminal_preserved.call v cur q c hA.terminal hcur hq hG).2, ?_, ?_⟩
    · show (v.world.exec q c).2.machine.phase = _
      rw [exec_machine, phase_machineAfter c hinert.2]
      exact hA.phase
    · exact (creates_called hinert.1).trans hA.creates
  finish v cur a hA hcur hret :=
    ⟨terminal_preserved.finish v cur a hA.terminal hcur hret, hA.phase, hA.creates⟩
  crash v hA hG := ⟨terminal_preserved.crash v hA.terminal hG, hA.phase, hA.creates⟩

/-- Once Terminated is stored, the phase stays and no object is asked for. -/
theorem terminated_is_final (w : World) (es es' : List (Event World Answer))
    (hes : terminalGuard.Allows machineSystem (.idle w) (es ++ es'))
    (ht : (machineSystem.run (.idle w) es).world.machine.phase = some .terminated) :
    (machineSystem.run (.idle w) (es ++ es')).world.machine.phase = some .terminated ∧
      creates (machineSystem.run (.idle w) (es ++ es')).trace =
        creates (machineSystem.run (.idle w) es).trace := by
  obtain ⟨hfirst, hsecond⟩ := Guard.allows_append.mp hes
  have hinit : Terminal ⟨w, [], none⟩ := ⟨fun cur h => by cases h⟩
  obtain ⟨hT, hgoverns⟩ :=
    terminal_preserved.run (c := .idle w) hinit Contract.governs_idle hfirst
  obtain ⟨hA, _⟩ := (absorbed_preserved _).run ⟨hT, ht, rfl⟩ hgoverns hsecond
  rw [System.run_append]
  exact ⟨hA.phase, hA.creates⟩

end Step

section Runs

def terminalTests : Tests terminalGuard where
  start _ := true
  call v q c := v.current.all fun cur =>
    !(⟨q, (v.world.exec q c).1⟩ :: cur.done : Log).any readsRequest
  start_sound _ _ := trivial
  call_sound v q c h cur hcur _ _ := by
    rw [hcur] at h
    exact not_reclaiming_of_reads (by simpa using h)
  crash _ := true
  crash_sound _ _ := trivial

def reviveSample (w : World) : World :=
  { w with machine := { w.machine with spec := { w.machine.spec with killSwitch := false } } }

theorem admits_reviveSample (c : Config Request Response World Answer (Except ReconcilerError Action)) :
    terminalGuard.Admits c (.move (reviveSample c.world)) := rfl

/-- A machine whose Node was known when the kill switch ended it. -/
def sampleTerminated : Config Request Response World Answer (Except ReconcilerError Action) :=
  machineSystem.run (.idle (killSample sampleJoined.world)) (reconcileFor 9)

/-- The kill switch is released and the resource looked at twice. -/
def sampleRevived : List (Event World Answer) :=
  .move (reviveSample sampleTerminated.world) :: (reconcileFor 9 ++ reconcileFor 9)

theorem terminated_survives_release :
    (machineSystem.run (.idle (killSample sampleJoined.world))
      (reconcileFor 9 ++ sampleRevived)).world.machine.phase = some .terminated ∧
      creates (machineSystem.run (.idle (killSample sampleJoined.world))
        (reconcileFor 9 ++ sampleRevived)).trace = creates sampleTerminated.trace := by
  have hrun : (machineSystem.run (.idle (killSample sampleJoined.world))
        (reconcileFor 9)).world.machine.phase = some .terminated ∧
      terminalTests.passAll machineSystem (.idle (killSample sampleJoined.world))
        (reconcileFor 9) = true ∧
      terminalTests.passAll machineSystem
        (machineSystem.step sampleTerminated (.move (reviveSample sampleTerminated.world)))
        (reconcileFor 9 ++ reconcileFor 9) = true := by
    decide +kernel
  refine terminated_is_final (killSample sampleJoined.world) (reconcileFor 9) sampleRevived ?_ hrun.1
  exact Tests.allows_move (admits_reviveSample sampleTerminated) hrun.2

/-- A reclaim request on the Node it once had takes the resource out of Terminated, and with the
schedule enabled again the machine is back. -/
theorem reclaim_leaves_terminated :
    let c := machineSystem.run (.idle (requestSample (reviveSample sampleTerminated.world)))
      (reconcileFor 30)
    let c' := machineSystem.run c (.move (enableSample (goneSample c.world)) ::
      (reconcileFor 12 ++ reconcileFor 20))
    sampleTerminated.world.machine.phase = some .terminated ∧
      c.world.machine.phase = some .disabled ∧ creates c.trace = [] ∧
      c'.world.machine.phase = some .active ∧ (creates c'.trace).length = 3 := by
  decide +kernel

end Runs

end FiveSpot.Machine
