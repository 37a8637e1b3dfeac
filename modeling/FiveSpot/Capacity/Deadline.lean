import FiveSpot.Capacity.Frame

/-!
# The handback deadline

Once a deadline is on record, each reconcile reads it back and records it again. What ends this is a
reconcile that records none: one that concedes the slice, one that sees it drained, and also one that
finds its target blocked, after which the wait starts over.
-/

namespace FiveSpot.Capacity

set_option autoImplicit false

open Effects

def StatusPatch.deadline (p : StatusPatch) : Option Instant :=
  match p.handbackDeadline with
  | .set stamp => parseRfc3339 stamp
  | _ => none

/-- The patch of a reconcile that decided active or saw the drain counter at zero. -/
def StatusPatch.releases (p : StatusPatch) : Bool :=
  p.phase == .active ||
    match p.observedDrainedValue with
    | .set value => value == capacityInactiveValue
    | _ => false

/-- The deadline first recorded since a reconcile last released the wait. -/
def waiting : CapacityTrace → Option Instant
  | [] => none
  | .called _ (.patchStatus p) ch :: t =>
      if ch.applied then
        if p.releases then none else (waiting t).or p.deadline
      else waiting t
  | _ :: t => waiting t

/-- During a wait no patch records another deadline. -/
structure SameDeadline
    (o : Obs Request Response World Answer (Except CapacityError (Option Observation)))
    (t : CapacityTrace) : Prop where
  same : ∀ w p ch, o = .called w (.patchStatus p) ch →
    ∀ d d', waiting t = some d → p.deadline = some d' → d' = d

/--
The spec is not edited and the status is the controller's own. No conflict is reported, and during a
wait no reconcile finds its target blocked.
-/
def deadlineGuard : CapacityGuard where
  move := fun v w => StatusKept v w ∧ w.capacity.spec = v.world.capacity.spec
  start := fun _ => True
  call := fun v q _ => q.patches = true → ∀ cur, v.current = some cur →
    conflictSeen cur.snapshot.capacity cur.done = false ∧
      ((waiting v.trace).isSome = true → foundWritable cur.snapshot.capacity cur.done = true)
  crash := fun _ => True

/-- A wait is on record, with the deadline it began with. -/
structure Waits (v : CapacityView) : Prop where
  same : Throughout SameDeadline v.trace
  abreast : Abreast v
  notKilled : v.world.capacity.spec.killSwitch = false
  spec : ∀ cur, v.current = some cur → cur.snapshot.capacity.spec = v.world.capacity.spec
  stored : ∀ d, waiting v.trace = some d →
    v.world.capacity.handbackDeadline = some (.at d) ∧ v.world.capacity.drainedPath.isSome = true

section Patches

variable {c : ScheduledCapacity} {ns : String} {o : Observation} {conditions : List Condition}

@[simp] theorem deadline_statusPatch :
    (statusPatch c ns o conditions).deadline = (decision c o).handbackDeadline := by
  cases hd : (decision c o).handbackDeadline <;>
    simp [StatusPatch.deadline, statusPatch, buildStatusValue, MergeField.orNull, parseRfc3339,
      Timestamp.parse, Except.toOption, hd]

theorem undrained_of_not_releases (h : (statusPatch c ns o conditions).releases = false) :
    (decision c o).phase ≠ .active ∧ o.observedDrained ≠ some capacityInactiveValue := by
  obtain ⟨hphase, hdrained⟩ := (Bool.or_eq_false_iff).mp h
  refine ⟨fun hactive => ?_, fun hzero => ?_⟩
  · simp [statusPatch, buildStatusValue, hactive] at hphase
  · simp [statusPatch, buildStatusValue, MergeField.orNull, hzero] at hdrained

theorem draining_of_not_releases (hconflict : o.conflict = false)
    (hwritable : o.target.writable = true) (hkill : c.spec.killSwitch = false)
    (hpath : c.drainedPath.isSome = true)
    (h : (statusPatch c ns o conditions).releases = false) :
    (decisionInput c o).draining = true := by
  obtain ⟨hphase, hdrained⟩ := undrained_of_not_releases h
  have hclosed : (decisionInput c o).shouldBeActive = false := by
    cases hactive : (decisionInput c o).shouldBeActive with
    | false => rfl
    | true =>
      refine absurd (decide_phase_active.mpr ?_) hphase
      simp [CapacityDecisionInput.concedes, decisionInput, hconflict, hwritable, hkill] at hactive ⊢
      exact hactive
  simp [CapacityDecisionInput.draining, hclosed]
  simp [decisionInput, hconflict, hwritable, hkill, hpath, hdrained]

theorem drainedPath_of_deadline {d : Instant} (h : (decision c o).handbackDeadline = some d) :
    c.drainedPath.isSome = true := by
  unfold decision at h
  rw [decide_deadline] at h
  split at h
  · rename_i hdraining
    simp only [CapacityDecisionInput.draining, Bool.and_eq_true] at hdraining
    exact hdraining.1.2
  · cases h

theorem deadline_kept {d : Instant} (hstored : c.handbackDeadline = some (.at d)) :
    (decision c o).handbackDeadline =
      if (decisionInput c o).draining then some d else none := by
  unfold decision
  rw [decide_deadline]
  simp [decisionInput, hstored, parseRfc3339, Timestamp.parse, Except.toOption]

end Patches

namespace Waits

variable {v : CapacityView}

theorem moved {w : World} (hv : Waits v) (hstatus : StatusKept v w)
    (hspec : w.capacity.spec = v.world.capacity.spec) : Waits (v.moved w) where
  same := .cons ⟨fun _ _ _ heq => by cases heq⟩ hv.same
  abreast := hv.abreast.moved hstatus
  notKilled := by
    change w.capacity.spec.killSwitch = false
    rw [hspec]
    exact hv.notKilled
  spec := by
    intro cur hcur
    change _ = w.capacity.spec
    rw [hspec]
    exact hv.spec cur hcur
  stored := by
    intro d hd
    change w.capacity.handbackDeadline = _ ∧ w.capacity.drainedPath.isSome = true
    unfold ScheduledCapacity.handbackDeadline ScheduledCapacity.drainedPath
    rw [hspec, show w.capacity.status = v.world.capacity.status from hstatus]
    exact hv.stored d hd

theorem started (hv : Waits v) : Waits v.started where
  same := .cons ⟨fun _ _ _ heq => by cases heq⟩ hv.same
  abreast := .started
  notKilled := hv.notKilled
  spec := by
    rintro cur ⟨⟩
    rfl
  stored := hv.stored

theorem unpatching (hv : Waits v) {cur : Current Request Response World} {q : Request} {ch : Answer}
    (hcur : v.current = some cur) (hq : q.patches = false) :
    Waits (v.called capacitySystem cur q ch) := by
  have hsame : waiting (v.called capacitySystem cur q ch).trace = waiting v.trace := by
    cases q <;> first | rfl | cases hq
  have hcapacity : (v.called capacitySystem cur q ch).world.capacity = v.world.capacity :=
    exec_capacity hq
  refine ⟨.cons ⟨fun _ _ _ heq => ?_⟩ hv.same, hv.abreast.called hcur, ?_, ?_, ?_⟩
  · cases heq
    cases hq
  · rw [hcapacity]
    exact hv.notKilled
  · rintro cur' ⟨⟩
    rw [hcapacity]
    exact hv.spec cur hcur
  · rw [hsame, hcapacity]
    exact hv.stored

theorem patching (hv : Waits v) {cur : Current Request Response World} {ch : Answer} {ns : String}
    {o : Observation} {conditions : List Condition} (hcur : v.current = some cur)
    (hi : Informed cur.snapshot.capacity cur.done o)
    (hw : Written cur.snapshot.capacity o cur.done)
    (hconflict : conflictSeen cur.snapshot.capacity cur.done = false)
    (hfound : (waiting v.trace).isSome = true →
      foundWritable cur.snapshot.capacity cur.done = true) :
    Waits (v.called capacitySystem cur
      (.patchStatus (statusPatch cur.snapshot.capacity ns o conditions)) ch) := by
  have hstatus := hv.abreast cur hcur hw.unpatched
  have hspec := hv.spec cur hcur
  have hstored : ∀ d, waiting v.trace = some d →
      cur.snapshot.capacity.handbackDeadline = some (.at d) ∧
        cur.snapshot.capacity.drainedPath.isSome = true := by
    intro d hd
    unfold ScheduledCapacity.handbackDeadline ScheduledCapacity.drainedPath
    rw [hstatus, hspec]
    exact hv.stored d hd
  refine ⟨.cons ⟨fun _ _ _ heq => ?_⟩ hv.same, hv.abreast.called hcur, ?_, ?_, ?_⟩
  · cases heq
    intro d d' hd hd'
    rw [deadline_statusPatch, deadline_kept (hstored d hd).1] at hd'
    split at hd'
    · cases hd'
      rfl
    · cases hd'
  · change (v.world.exec _ ch).2.capacity.spec.killSwitch = false
    rw [exec_spec]
    exact hv.notKilled
  · rintro cur' ⟨⟩
    change _ = (v.world.exec _ ch).2.capacity.spec
    rw [exec_spec]
    exact hspec
  · intro d hd
    change (if ch.applied then _ else waiting v.trace) = some d at hd
    change (v.world.exec _ ch).2.capacity.handbackDeadline = _ ∧
      (v.world.exec _ ch).2.capacity.drainedPath.isSome = true
    rw [exec_patch]
    cases happlied : ch.applied with
    | false =>
      rw [happlied] at hd
      exact hv.stored d hd
    | true =>
      rw [happlied] at hd
      simp only [if_true] at hd
      split at hd
      · cases hd
      · rename_i hreleases
        -- either the wait was running, or this patch begins it
        have hdecided : (decision cur.snapshot.capacity o).handbackDeadline = some d ∧
            cur.snapshot.capacity.drainedPath.isSome = true := by
          cases hwait : waiting v.trace with
          | none =>
            rw [hwait, Option.none_or, deadline_statusPatch] at hd
            exact ⟨hd, drainedPath_of_deadline hd⟩
          | some d₀ =>
            rw [hwait, Option.some_or] at hd
            cases hd
            obtain ⟨hdeadline, hpath⟩ := hstored d hwait
            have hwritable : o.target.writable = true := by
              rw [hi.target.writable]
              exact hfound (by rw [hwait]; rfl)
            have hkill : cur.snapshot.capacity.spec.killSwitch = false := by
              rw [hspec]
              exact hv.notKilled
            have hdraining := draining_of_not_releases (hi.conflict.trans hconflict) hwritable hkill
              hpath (Bool.eq_false_iff.mpr hreleases)
            exact ⟨by rw [deadline_kept hdeadline, if_pos hdraining], hpath⟩
        obtain ⟨hdeadline, hpath⟩ := hdecided
        refine ⟨?_, ?_⟩
        · change (StatusPatch.apply _ _).handbackDeadline = _
          rw [statusPatch, buildStatusValue_handbackDeadline, hdeadline]
          rfl
        · unfold ScheduledCapacity.drainedPath at hpath ⊢
          rw [hspec] at hpath
          exact hpath

theorem called (hv : Waits v) {cur : Current Request Response World} {q : Request} {ch : Answer}
    (hcur : v.current = some cur) (hq : Permitted cur.snapshot.capacity cur.done q)
    (hG : deadlineGuard.call v q ch) : Waits (v.called capacitySystem cur q ch) := by
  cases hq with
  | lookUp hlook => exact hv.unpatching hcur (patches_of_reads (reads_of_looksUp hlook))
  | getObject _ => exact hv.unpatching hcur rfl
  | listMachines _ _ => exact hv.unpatching hcur rfl
  | apply _ _ happlies =>
    cases happlies
    exact hv.unpatching hcur rfl
  | patch hi hw _ =>
    obtain ⟨hconflict, hfound⟩ := hG rfl cur hcur
    exact hv.patching hcur hi hw hconflict hfound

theorem finished (hv : Waits v) {cur : Current Request Response World}
    {a : Except CapacityError (Option Observation)} : Waits (v.finished cur a) where
  same := .cons ⟨fun _ _ _ heq => by cases heq⟩ hv.same
  abreast := .finished
  notKilled := hv.notKilled
  spec := by
    rintro cur' ⟨⟩
  stored := hv.stored

theorem restarted (hv : Waits v) : Waits (v.restarted capacitySystem) where
  same := .cons ⟨fun _ _ _ heq => by cases heq⟩ hv.same
  abreast := .restarted
  notKilled := hv.notKilled
  spec := by
    rintro cur' ⟨⟩
  stored := hv.stored

end Waits

theorem waits_preserved : capacityContract.Preserves capacitySystem deadlineGuard Waits where
  move := fun _ _ hv hw => hv.moved hw.1 hw.2
  start := fun v hv _ _ => ⟨capacityContract_binds v.world, hv.started⟩
  call := fun _ _ _ _ hv hcur hq hG => ⟨trivial, hv.called hcur hq hG⟩
  finish := fun _ _ _ hv _ _ => hv.finished
  crash := fun _ hv _ => hv.restarted

/-- In every such run of a resource that is not killed, a wait keeps the deadline it began with. -/
theorem handback_deadline_fixed {w : World} (hkill : w.capacity.spec.killSwitch = false)
    {es : List (Event World Answer)} (hG : deadlineGuard.Allows capacitySystem (.idle w) es) :
    Throughout SameDeadline (capacitySystem.run (.idle w) es).trace := by
  have hinit : Waits ⟨w, [], none⟩ := by
    refine ⟨.nil, ?_, hkill, ?_, ?_⟩
    · rintro cur ⟨⟩
    · rintro cur ⟨⟩
    · rintro d ⟨⟩
  exact (waits_preserved.run_idle hinit hG).same

def deadlineTests : Tests deadlineGuard where
  start _ := true
  call v q _ := !q.patches || v.current.all fun cur =>
    !conflictSeen cur.snapshot.capacity cur.done && foundWritable cur.snapshot.capacity cur.done
  start_sound _ _ := trivial
  call_sound v q ch h hq cur hcur := by
    simp only [hq, hcur, Bool.not_true, Bool.false_or, Option.all_some, Bool.and_eq_true,
      Bool.not_eq_true'] at h
    exact ⟨h.1, fun _ => h.2⟩
  crash _ := true
  crash_sound _ _ := trivial

def advance (active : Bool) (claimed seconds : Int) (w : World) : World :=
  { setProvider active w with
    object := w.object.map fun o => { o with status := some (.obj [("claimed", .int claimed)]) }
    clock := seconds * nanosPerSecond }

theorem admits_advance (active : Bool) (claimed seconds : Int) (c : CapacityConfig) :
    deadlineGuard.Admits c (.move (advance active claimed seconds c.world)) :=
  ⟨rfl, rfl⟩

/-- The window has closed with three in use, and the wait has begun at second ten. -/
def sampleHandingBack : CapacityConfig :=
  capacitySystem.run (.idle sampleWorld)
    (reconcileFor 17 ++ .move (advance false 3 10 sampleActive.world) :: reconcileFor 17)

def sampleWait : List (Event World Answer) :=
  (reconcileFor 17 ++ .move (advance false 3 10 sampleActive.world) :: reconcileFor 17) ++
    .move (advance false 2 100 sampleHandingBack.world) :: reconcileFor 17

theorem deadline_fixed_at_second_610 :
    sampleWorld.capacity.spec.killSwitch = false ∧
      waiting (capacitySystem.run (.idle sampleWorld) sampleWait).trace = some (610 * nanosPerSecond) ∧
      (capacitySystem.run (.idle sampleWorld) sampleWait).world.capacity.handbackDeadline =
        some (.at (610 * nanosPerSecond)) ∧
      Throughout SameDeadline (capacitySystem.run (.idle sampleWorld) sampleWait).trace := by
  have hrun : let c := capacitySystem.run (.idle sampleWorld) sampleWait
      (waiting c.trace = some (610 * nanosPerSecond) ∧
          c.world.capacity.handbackDeadline = some (.at (610 * nanosPerSecond))) ∧
        (deadlineTests.passAll capacitySystem (.idle sampleWorld) (reconcileFor 17) = true ∧
          deadlineTests.passAll capacitySystem
            (capacitySystem.step sampleActive (.move (advance false 3 10 sampleActive.world)))
            (reconcileFor 17) = true) ∧
        deadlineTests.passAll capacitySystem
          (capacitySystem.step sampleHandingBack (.move (advance false 2 100 sampleHandingBack.world)))
          (reconcileFor 17) = true := by
    decide +kernel
  obtain ⟨⟨hwaiting, hrecorded⟩, hclosing, hlast⟩ := hrun
  refine ⟨rfl, hwaiting, hrecorded, handback_deadline_fixed rfl (Guard.allows_append.mpr ⟨?_, ?_, ?_⟩)⟩
  · exact Tests.allows_move (admits_advance false 3 10 sampleActive) hclosing
  · exact admits_advance false 2 100 sampleHandingBack
  · exact Tests.allows hlast

def deadlineTest (o : Obs Request Response World Answer (Except CapacityError (Option Observation)))
    (t : CapacityTrace) : Bool :=
  match o with
  | .called _ (.patchStatus p) _ =>
      match waiting t, p.deadline with
      | some d, some d' => d' == d
      | _, _ => true
  | _ => true

theorem deadlineTest_of_sameDeadline
    (o : Obs Request Response World Answer (Except CapacityError (Option Observation)))
    (t : CapacityTrace) (h : SameDeadline o t) : deadlineTest o t = true := by
  unfold deadlineTest
  split
  · split
    · rename_i d d' hd hd'
      exact beq_iff_eq.mpr (h.same _ _ _ rfl d d' hd hd')
    · rfl
  · rfl

def setAccess (allowed : Bool) (seconds : Int) (w : World) : World :=
  { w with access := fun _ _ _ => some allowed, clock := seconds * nanosPerSecond }

/-- A reconcile in the middle of the wait finds its target blocked. -/
def sampleBlocked : CapacityConfig :=
  capacitySystem.run sampleHandingBack
    (.move (setAccess false 100 sampleHandingBack.world) :: reconcileFor 17)

/-- With the target back, and nothing drained, the next reconcile records a later deadline. -/
theorem blocked_target_restarts_wait :
    sampleHandingBack.world.capacity.handbackDeadline = some (.at (610 * nanosPerSecond)) ∧
      (capacitySystem.run sampleBlocked
        (.move (setAccess true 200 sampleBlocked.world) :: reconcileFor 17)).world.capacity.handbackDeadline =
        some (.at (800 * nanosPerSecond)) ∧
      ¬ Throughout SameDeadline (capacitySystem.run sampleBlocked
        (.move (setAccess true 200 sampleBlocked.world) :: reconcileFor 17)).trace := by
  refine ⟨by decide +kernel, by decide +kernel, fun h => ?_⟩
  have hall := h.everywhere deadlineTest_of_sameDeadline
  revert hall
  decide +kernel

end FiveSpot.Capacity
