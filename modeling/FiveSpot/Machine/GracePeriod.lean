import FiveSpot.Machine.Frame

/-!
# The grace period of a shutdown

The shutdown finds its start in the stored condition with the grace-period reason. When the Active
handler has written that condition, nothing is drained or deleted before the period is over.
-/

namespace FiveSpot.Machine

set_option autoImplicit false

open Effects

def patchTime (p : StatusPatch) : Option Instant :=
  (p.conditions.bind List.head?).bind fun c => c.lastTransitionTime.parse.toOption

def shutdownStarts : MachineTrace → List Instant
  | [] => []
  | .called _ (.patchStatus p) c :: t =>
      if c.applied = true ∧ p.phase = some .shuttingDown then
        (patchTime p).toList ++ shutdownStarts t
      else shutdownStarts t
  | _ :: t => shutdownStarts t

def graceStarted (r : ScheduledMachine) : Option Timestamp := r.status.bind graceStart

section Starts

variable {w : World} {q : Request} {c : Answer} {t : MachineTrace}

theorem shutdownStarts_called (hq : q.setsPhase = false) :
    shutdownStarts (.called w q c :: t) = shutdownStarts t := by
  cases q with
  | patchStatus p =>
    have hp : p.phase = none := by simpa [Request.setsPhase] using hq
    simp [shutdownStarts, hp]
  | _ => rfl

theorem shutdownStarts_move {now : Instant} {phase : Phase} {reason message : String}
    {inSchedule : Bool} :
    shutdownStarts (.called w (.patchStatus (phasePatch now phase reason message inSchedule)) c :: t) =
      if c.applied = true ∧ phase = .shuttingDown then now :: shutdownStarts t
      else shutdownStarts t := by
  simp only [shutdownStarts, phasePatch, Option.some.injEq]
  rfl

end Starts

section Recorded

variable {r : ScheduledMachine}

theorem graceStarted_of_recorded {period : Option (Instant × Nat)}
    (h : recordedGracePeriod r = .ok period) :
    match period with
    | none => graceStarted r = none
    | some (start, timeout) => (∃ stamp, graceStarted r = some stamp ∧ stamp.parse = .ok start) ∧
        parseDuration r.spec.gracefulShutdownTimeout = .ok timeout := by
  unfold recordedGracePeriod at h
  unfold graceStarted
  cases hstatus : r.status with
  | none =>
    rw [hstatus] at h
    cases h
  | some status =>
    simp only [hstatus] at h
    cases hstart : graceStart status with
    | none =>
      simp only [hstart] at h
      cases h
      exact hstart
    | some stamp =>
      simp only [hstart] at h
      cases hparse : stamp.parse with
      | error e =>
        simp only [hparse] at h
        cases h
      | ok start =>
        simp only [hparse] at h
        cases hd : parseDuration r.spec.gracefulShutdownTimeout with
        | error e =>
          rw [hd] at h
          cases h
        | ok d =>
          rw [hd] at h
          cases h
          exact ⟨⟨stamp, hstart, hparse⟩, rfl⟩

theorem le_of_gracePeriodElapsed {start now : Instant} {timeout : Nat} (hstart : start ≤ now)
    (h : gracePeriodElapsed start now timeout = true) :
    start + timeout * nanosPerSecond ≤ now := by
  have hnonneg : 0 ≤ now - start := Int.sub_nonneg.mpr hstart
  have hseconds : numSeconds (now - start) = (now - start) / nanosPerSecond :=
    Int.tdiv_eq_ediv_of_nonneg hnonneg
  simp only [gracePeriodElapsed, hseconds] at h
  have hquot : 0 ≤ (now - start) / nanosPerSecond := Int.ediv_nonneg hnonneg (by decide)
  rw [if_neg (Int.not_lt.mpr hquot)] at h
  have hle : (timeout : Int) ≤ (now - start) / nanosPerSecond := by simpa using h
  have hmul := (Int.le_ediv_iff_mul_le (by decide : 0 < nanosPerSecond)).mp hle
  exact Int.add_le_of_le_sub_left hmul

end Recorded

def Covered (d : Nat) (r : ScheduledMachine) (starts : List Instant) : Prop :=
  r.phase = some .shuttingDown →
    d = 0 ∨ ∀ s ∈ starts, ∃ start ∈ starts, graceStarted r = some (.at start) ∧ s ≤ start

structure Waiting (d : Nat) (v : MachineView) (cur : Current Request Response World) : Prop where
  timeout : parseDuration cur.snapshot.machine.spec.gracefulShutdownTimeout = .ok d
  enabled : Governed cur.snapshot.machine → cur.snapshot.machine.phase = some .active →
    cur.snapshot.machine.spec.enabled = false → d = 0
  readings : ∀ now, ⟨.now, now⟩ ∈ cur.done → now ≤ v.world.clock
  since : Steady cur.done → ∀ now, ⟨.now, now⟩ ∈ cur.done → ∀ s ∈ shutdownStarts v.trace, s ≤ now
  covered : Steady cur.done → Covered d cur.snapshot.machine (shutdownStarts v.trace)
  elapsed : ⟨.info .gracePeriodElapsed, ()⟩ ∈ cur.done →
    cur.snapshot.machine.phase = some .shuttingDown ∧
      ∀ s ∈ shutdownStarts v.trace, s + d * nanosPerSecond ≤ v.world.clock

structure Waits (d : Nat) (v : MachineView) : Prop where
  timeout : parseDuration v.world.machine.spec.gracefulShutdownTimeout = .ok d
  past : ∀ s ∈ shutdownStarts v.trace, s ≤ v.world.clock
  covered : Covered d v.world.machine (shutdownStarts v.trace)
  flight : ∀ cur, v.current = some cur → Waiting d v cur

theorem graceStarted_machineAfter {w : World} {q : Request} (c : Answer)
    (hq : ∀ p, q = .patchStatus p → p.conditions = none) :
    graceStarted (machineAfter w q c) = graceStarted w.machine := by
  cases q with
  | patchStatus p =>
    simp only [machineAfter]
    split
    · simp only [graceStarted, graceStart, World.patchStatus, Option.bind_some,
        StatusPatch.apply_conditions, hq p rfl, Option.getD_none]
      cases w.machine.status <;> rfl
    · rfl
  | _ =>
    unfold graceStarted
    rw [status_machineAfter c (by simp)]

theorem graceStarted_move {w : World} {now : Instant} {phase : Phase} {message : String}
    {inSchedule : Bool} {c : Answer} (hc : c.applied = true) :
    graceStarted (machineAfter w
      (.patchStatus (phasePatch now phase reasonGracePeriod message inSchedule)) c) =
      some (.at now) := by
  simp [machineAfter, hc, graceStarted, graceStart, World.patchStatus, phasePatch, Condition.new]

theorem timeout_machineAfter (w : World) (q : Request) (c : Answer) :
    (machineAfter w q c).spec.gracefulShutdownTimeout = w.machine.spec.gracefulShutdownTimeout := by
  cases q <;> simp only [machineAfter]
  all_goals split <;> rfl

section Step

variable {d : Nat} {v : MachineView} {cur : Current Request Response World} {q : Request} {c : Answer}

theorem conditions_of_permitted {r : ScheduledMachine} {h : Log} {p : StatusPatch}
    (hq : Permitted r h (.patchStatus p)) (hp : p.phase = none) : p.conditions = none := by
  cases hq with
  | quiet hq => simpa [Request.quiet, hp] using hq
  | move => cases hp

theorem Waits.covered_called (hW : Waits d v) (hcur : v.current = some cur)
    (hq : Permitted cur.snapshot.machine cur.done q) :
    Covered d (machineAfter v.world q c) (shutdownStarts (.called v.world q c :: v.trace)) := by
  intro hphase
  cases hset : q.setsPhase with
  | false =>
    rw [phase_machineAfter c hset] at hphase
    rw [shutdownStarts_called hset, graceStarted_machineAfter c fun p hp => ?_]
    · exact hW.covered hphase
    · subst hp
      exact conditions_of_permitted hq (by simpa [Request.setsPhase] using hset)
  | true =>
    cases hq with
    | quiet hquiet => simp [Request.setsPhase_of_steady (Request.steady_of_quiet hquiet)] at hset
    | @move now phase reason message inSchedule hnow hm =>
      rw [phase_machineAfter_move] at hphase
      rw [shutdownStarts_move]
      cases hc : c.applied with
      | false =>
        have hkept : machineAfter v.world
            (.patchStatus (phasePatch now phase reason message inSchedule)) c = v.world.machine := by
          simp [machineAfter, hc]
        rw [if_neg (by simp [hc])] at hphase
        rw [hkept, if_neg (by simp)]
        exact hW.covered hphase
      | true =>
        rw [if_pos hc] at hphase
        cases hphase
        rw [if_pos ⟨rfl, rfl⟩]
        have hF := hW.flight cur hcur
        cases hm with
        | shutdownDisabled hg hp he _ => exact Or.inl (hF.enabled hg hp he)
        | shutdownClosed _ _ _ _ hs =>
          right
          rw [graceStarted_move hc]
          intro s hmem
          refine ⟨now, List.mem_cons_self, rfl, ?_⟩
          rcases List.mem_cons.mp hmem with rfl | hmem
          · exact Int.le_refl s
          · exact hF.since hs now hnow s hmem
    | _ => cases hset

theorem shutdownStarts_permitted (hq : Permitted cur.snapshot.machine cur.done q) :
    shutdownStarts (.called v.world q c :: v.trace) = shutdownStarts v.trace ∨
      ∃ now, ⟨.now, now⟩ ∈ cur.done ∧ cur.snapshot.machine.phase = some .active ∧
        shutdownStarts (.called v.world q c :: v.trace) = now :: shutdownStarts v.trace := by
  cases hset : q.setsPhase with
  | false => exact Or.inl (shutdownStarts_called hset)
  | true =>
    cases hq with
    | quiet hquiet => simp [Request.setsPhase_of_steady (Request.steady_of_quiet hquiet)] at hset
    | @move now phase _ _ _ hnow hm =>
      rw [shutdownStarts_move]
      split
      · rename_i hmove
        obtain ⟨_, rfl⟩ := hmove
        refine Or.inr ⟨now, hnow, ?_, rfl⟩
        cases hm with
        | shutdownDisabled _ hp _ _ => exact hp
        | shutdownClosed _ hp _ _ _ => exact hp
      · exact Or.inl rfl
    | _ => cases hset

theorem Waits.over_of_graceOver (hW : Waits d v) (hcur : v.current = some cur)
    (hphase : cur.snapshot.machine.phase = some .shuttingDown)
    (hover : GraceOver cur.snapshot.machine cur.done) (hs : Steady cur.done) :
    ∀ s ∈ shutdownStarts v.trace, s + d * nanosPerSecond ≤ v.world.clock := by
  intro s hmem
  have hF := hW.flight cur hcur
  rcases hF.covered hs hphase with rfl | hcovered
  · have hpast := hW.past s hmem
    simpa using hpast
  · obtain ⟨start, hstart, hstamp, hle⟩ := hcovered s hmem
    rcases hover with hnone | ⟨start', timeout, now, hrecorded, hnow, helapsed⟩
    · cases hstamp.symm.trans (graceStarted_of_recorded hnone)
    · obtain ⟨⟨stamp, hstamp', hparse⟩, htimeout⟩ := graceStarted_of_recorded hrecorded
      cases hstamp.symm.trans hstamp'
      cases hparse
      cases hF.timeout.symm.trans htimeout
      have hnow' := le_of_gracePeriodElapsed (hF.since hs now hnow start hstart) helapsed
      calc s + d * nanosPerSecond ≤ start + d * nanosPerSecond := Int.add_le_add_right hle _
        _ ≤ now := hnow'
        _ ≤ v.world.clock := hF.readings now hnow

theorem Waiting.called (hW : Waits d v) (hcur : v.current = some cur)
    (hq : Permitted cur.snapshot.machine cur.done q) :
    Waiting d (v.called machineSystem cur q c)
      ⟨cur.snapshot, ⟨q, (v.world.exec q c).1⟩ :: cur.done⟩ := by
  have hF := hW.flight cur hcur
  have hclock : (v.called machineSystem cur q c).world.clock = v.world.clock :=
    exec_clock v.world q c
  have hstarts : ∀ x : Response q, Steady (⟨q, x⟩ :: cur.done) →
      shutdownStarts (v.called machineSystem cur q c).trace = shutdownStarts v.trace :=
    fun _ hs => shutdownStarts_called (hs.noPhase _ List.mem_cons_self)
  have htail : ∀ x : Response q, Steady (⟨q, x⟩ :: cur.done) → Steady cur.done :=
    fun _ hs x hx => hs x (List.mem_cons_of_mem _ hx)
  refine ⟨hF.timeout, hF.enabled, fun now hnow => ?_, fun hs now hnow => ?_, fun hs => ?_,
    fun helapsed => ?_⟩
  · rw [hclock]
    rcases List.mem_cons.mp hnow with heq | hnow
    · cases heq
      exact Int.le_refl _
    · exact hF.readings now hnow
  · rw [hstarts _ hs]
    rcases List.mem_cons.mp hnow with heq | hnow
    · cases heq
      exact hW.past
    · exact hF.since (htail _ hs) now hnow
  · rw [hstarts _ hs]
    exact hF.covered (htail _ hs)
  · rw [hclock]
    rcases List.mem_cons.mp helapsed with heq | helapsed
    · obtain ⟨rfl, _⟩ := Sigma.mk.inj heq
      cases hq with
      | quiet hquiet => cases hquiet
      | elapsed _ hphase hover hs => exact ⟨hphase, hW.over_of_graceOver hcur hphase hover hs⟩
    · obtain ⟨hphase, hover⟩ := hF.elapsed helapsed
      refine ⟨hphase, ?_⟩
      rcases shutdownStarts_permitted (v := v) (c := c) hq with hkept | ⟨_, _, hactive, _⟩
      · show ∀ s ∈ shutdownStarts (.called v.world q c :: v.trace), _
        rw [hkept]
        exact hover
      · cases hphase.symm.trans hactive

theorem Waits.past_called (hW : Waits d v) (hcur : v.current = some cur)
    (hq : Permitted cur.snapshot.machine cur.done q) :
    ∀ s ∈ shutdownStarts (.called v.world q c :: v.trace), s ≤ v.world.clock := by
  rcases shutdownStarts_permitted (v := v) (c := c) hq with hkept | ⟨now, hnow, _, hadded⟩
  · rw [hkept]
    exact hW.past
  · rw [hadded]
    intro s hs
    rcases List.mem_cons.mp hs with rfl | hs
    · exact (hW.flight cur hcur).readings _ hnow
    · exact hW.past s hs

end Step

structure TimePasses (w w' : World) : Prop extends StatusKept w w' where
  clock : w.clock ≤ w'.clock
  timeout : w'.machine.spec.gracefulShutdownTimeout = w.machine.spec.gracefulShutdownTimeout

/-- No active resource is found disabled, unless there is no grace period to wait for. -/
def graceGuard (d : Nat) : MachineGuard where
  move v w := TimePasses v.world w
  start v := Governed v.world.machine → v.world.machine.phase = some .active →
    v.world.machine.spec.enabled = false → d = 0
  call _ _ _ := True
  crash _ := True

theorem Covered.congr {d : Nat} {r r' : ScheduledMachine} {starts : List Instant}
    (h : Covered d r starts) (hstatus : r'.status = r.status) : Covered d r' starts := by
  unfold Covered graceStarted ScheduledMachine.phase at *
  rw [hstatus]
  exact h

theorem waits_preserved (d : Nat) :
    machineContract.Preserves machineSystem (graceGuard d) (Waits d) where
  move v w hW hu := by
    have hlater : ∀ {t : Instant}, t ≤ v.world.clock → t ≤ w.clock :=
      fun h => Int.le_trans h hu.clock
    refine ⟨?_, fun s hs => hlater (hW.past s hs), hW.covered.congr hu.status, fun cur hcur => ?_⟩
    · show parseDuration w.machine.spec.gracefulShutdownTimeout = .ok d
      rw [hu.timeout]
      exact hW.timeout
    · have hF := hW.flight cur hcur
      refine ⟨hF.timeout, hF.enabled, fun now hnow => hlater (hF.readings now hnow), hF.since,
        hF.covered, fun helapsed => ?_⟩
      obtain ⟨hphase, hover⟩ := hF.elapsed helapsed
      exact ⟨hphase, fun s hs => hlater (hover s hs)⟩
  start v hW hidle hG := by
    refine ⟨machineContract_binds _, hW.timeout, hW.past, hW.covered, ?_⟩
    rintro cur ⟨⟩
    refine ⟨hW.timeout, hG, fun now hnow => ?_, fun _ now hnow => ?_, fun _ => hW.covered,
      fun helapsed => ?_⟩
    · cases hnow
    · cases hnow
    · cases helapsed
  call v cur q c hW hcur hq _ := by
    refine ⟨trivial, ?_, fun s hs => ?_, ?_, fun cur' hcur' => ?_⟩
    · show parseDuration (v.world.exec q c).2.machine.spec.gracefulShutdownTimeout = .ok d
      rw [exec_machine, timeout_machineAfter]
      exact hW.timeout
    · show s ≤ (v.world.exec q c).2.clock
      rw [exec_clock]
      exact hW.past_called hcur hq s hs
    · show Covered d (v.world.exec q c).2.machine _
      rw [exec_machine]
      exact hW.covered_called hcur hq
    · cases hcur'
      exact Waiting.called hW hcur hq
  finish v cur a hW hcur _ := ⟨hW.timeout, hW.past, hW.covered, fun cur' h => by cases h⟩
  crash v hW _ := ⟨hW.timeout, hW.past, hW.covered, fun cur' h => by cases h⟩

/-- The calls that drain a node or take an object away. -/
def Request.takesAway : Request → Bool
  | .delete _ _ => true
  | q => q.drains

theorem removing_of_takesAway {r : ScheduledMachine} {h : Log} {q : Request}
    (hq : Permitted r h q) (htakes : q.takesAway = true) : Removing r h := by
  cases hq with
  | quiet hquiet hremoving =>
    refine hremoving ?_
    cases q with
    | delete version k => cases hquiet
    | _ => exact htakes
  | delete _ _ hremoving => exact hremoving
  | addFinalizer | dropFinalizer | creating | create | elapsed | disableSchedule | move => cases htakes

/-- The reconcile in flight is one of the phase handlers: the resource is neither being deleted nor
switched off, and its Node does not ask to be reclaimed. -/
structure Handled (cur : Current Request Response World) : Prop where
  live : cur.snapshot.machine.deletionTimestamp = none
  killOff : cur.snapshot.machine.spec.killSwitch = false
  notReclaiming : ¬Reclaiming cur.snapshot.machine cur.done

/-- No phase handler drains a node or deletes an object before the grace period is over. -/
theorem no_removal_within_grace (d : Nat) (w : World) (es : List (Event World Answer))
    (hd : parseDuration w.machine.spec.gracefulShutdownTimeout = .ok d)
    (hes : (graceGuard d).Allows machineSystem (.idle w) es)
    (cur : Current Request Response World) (q : Request)
    (k : Response q → Prog Request Response (Except ReconcilerError Action))
    (hflight : (machineSystem.run (.idle w) es).inflight = some (cur, .call q k))
    (hhandled : Handled cur) (hq : q.takesAway = true) :
    ∀ s ∈ shutdownStarts (machineSystem.run (.idle w) es).trace,
      s + d * nanosPerSecond ≤ (machineSystem.run (.idle w) es).world.clock := by
  have hinit : Waits d ⟨w, [], none⟩ := by
    refine ⟨hd, fun s hs => (by cases hs), fun _ => Or.inr fun s hs => (by cases hs), ?_⟩
    rintro cur ⟨⟩
  obtain ⟨hW, hgoverns⟩ := (waits_preserved d).run (c := .idle w) hinit Contract.governs_idle hes
  have hcur : (machineSystem.run (.idle w) es).view.current = some cur := by
    simp [Config.view, hflight]
  cases removing_of_takesAway (hgoverns cur _ hflight).1 hq with
  | deleted hdeleted =>
    rw [hhandled.live] at hdeleted
    cases hdeleted
  | killed hkilled => cases hhandled.killOff.symm.trans hkilled.killOn
  | reclaimed _ hreclaiming => exact absurd hreclaiming hhandled.notReclaiming
  | elapsed _ hmem => exact ((hW.flight cur hcur).elapsed hmem).2

section Runs

def graceTests (d : Nat) : Tests (graceGuard d) where
  start v := v.world.machine.spec.enabled || v.world.machine.phase != some .active
  call _ _ _ := true
  start_sound v h _ hactive hoff := by simp [hactive, hoff] at h
  call_sound _ _ _ _ := trivial
  crash _ := true
  crash_sound _ _ := trivial

def removalPending (c : Config Request Response World Answer (Except ReconcilerError Action)) : Bool :=
  c.inflight.any fun (cur, p) =>
    cur.snapshot.machine.deletionTimestamp.isNone && !cur.snapshot.machine.spec.killSwitch &&
      cur.snapshot.machine.nodeRef.isNone &&
      match p with
      | .call q _ => q.takesAway
      | .pure _ => false

theorem exists_of_removalPending
    {c : Config Request Response World Answer (Except ReconcilerError Action)}
    (h : removalPending c = true) :
    ∃ cur q k, c.inflight = some (cur, .call q k) ∧ Handled cur ∧ q.takesAway = true := by
  obtain ⟨⟨cur, p⟩, hin, hp⟩ := (Option.any_eq_true _ _).mp h
  simp only [Bool.and_eq_true, Bool.not_eq_true', Option.isNone_iff_eq_none] at hp
  obtain ⟨⟨⟨hlive, hkill⟩, href⟩, hcall⟩ := hp
  cases p with
  | pure a => cases hcall
  | call q k =>
    refine ⟨cur, q, k, hin, ⟨hlive, hkill, ?_⟩, hcall⟩
    rintro ⟨nodeRef, _, _, hsome, _⟩
    cases href.symm.trans hsome

def sampleClosed : World := closeSample sampleAdded.world

def sampleShutdown : Config Request Response World Answer (Except ReconcilerError Action) :=
  machineSystem.run (.idle sampleClosed) (reconcileFor 9)

def waitSample (w : World) : World := { w with clock := w.clock + 300 * nanosPerSecond }

theorem admits_waitSample (c : Config Request Response World Answer (Except ReconcilerError Action)) :
    (graceGuard 300).Admits c (.move (waitSample c.world)) :=
  ⟨⟨rfl⟩, Int.le_add_of_nonneg_right (by decide), rfl⟩

def sampleWaited : List (Event World Answer) :=
  reconcileFor 9 ++ .move (waitSample sampleShutdown.world) :: reconcileFor 7

theorem removal_after_five_minutes :
    shutdownStarts (machineSystem.run (.idle sampleClosed) sampleWaited).trace = [0] ∧
      removalPending (machineSystem.run (.idle sampleClosed) sampleWaited) = true ∧
      ∀ s ∈ shutdownStarts (machineSystem.run (.idle sampleClosed) sampleWaited).trace,
        s + 300 * nanosPerSecond ≤ (machineSystem.run (.idle sampleClosed) sampleWaited).world.clock := by
  have hrun : shutdownStarts (machineSystem.run (.idle sampleClosed) sampleWaited).trace = [0] ∧
      removalPending (machineSystem.run (.idle sampleClosed) sampleWaited) = true ∧
      (graceTests 300).passAll machineSystem (.idle sampleClosed) (reconcileFor 9) = true ∧
      (graceTests 300).passAll machineSystem (machineSystem.step sampleShutdown
        (.move (waitSample sampleShutdown.world))) (reconcileFor 7) = true := by
    decide +kernel
  obtain ⟨hstarts, hpending, hpass⟩ := hrun
  obtain ⟨cur, q, k, hflight, hhandled, hq⟩ := exists_of_removalPending hpending
  refine ⟨hstarts, hpending, ?_⟩
  refine no_removal_within_grace 300 sampleClosed sampleWaited (by decide +kernel) ?_ cur q k hflight
    hhandled hq
  exact Tests.allows_move (admits_waitSample sampleShutdown) hpass

/-- Disabled while it is active, the machine goes in the next reconcile, with no time passed. -/
theorem disabled_machine_goes_at_once :
    let w := disableSample sampleAdded.world
    let c := machineSystem.run (.idle w) (reconcileFor 7 ++ reconcileFor 6)
    parseDuration w.machine.spec.gracefulShutdownTimeout = .ok 300 ∧
      shutdownStarts c.trace = [0] ∧ c.world.clock = 0 ∧
      c.world.machine.phase = some .shuttingDown ∧ removalPending c = true := by
  decide +kernel

end Runs

end FiveSpot.Machine
