import Mathlib.Logic.Function.Iterate
import FiveSpot.Machine.Frame
import FiveSpot.Machine.Health

/-!
# No dead ends but one

In good circumstances each reconcile moves a resource one phase on, so after a few of them it is
Active, wherever it was before. The exception is the Error phase, which nothing leads out of.
-/

namespace FiveSpot.Machine

set_option autoImplicit false

open Effects

/-- What a call asks about is as a machine needs it, and no Node asks to be reclaimed. -/
def favours (w : World) (r : ScheduledMachine) : Request → Bool
  | .isLeader => w.leader
  | .now => graceDone r w.clock
  | .pinnedKind _ _ _ => w.providerInstalled
  | .getProvider _ _ => w.provider.any saysActive
  | .resolveChild =>
      match w.child with
      | .ok _ => true
      | .error _ => false
  | .accessReview group _ plural _ => (w.access group plural).allowed
  | .getNode client name => (w.nodes client name).all fun node => (nodeReclaimRequest node).isNone
  | _ => true

/-- Every call succeeds in favourable surroundings, and no grace period is left to wait for. -/
def wellGuard : MachineGuard where
  move v w := StatusKept v.world w ∧ w.machine.finalizers = v.world.machine.finalizers
  start v := Sound v.world
  call v q c := c = .ok ∧
    ∀ cur, v.current = some cur → favours v.world cur.snapshot.machine q = true
  crash _ := False

theorem good_exec {w snapshot : World} {q : Request}
    (hq : favours w snapshot.machine q = true) : Good snapshot q (w.exec q .ok).1 := by
  cases q with
  | isLeader => exact hq
  | now => exact hq
  | pinnedKind group version kind =>
    have hinstalled : w.providerInstalled = true := hq
    simp [Good, World.exec, readAnswer, hinstalled]
  | getProvider ns name =>
    obtain ⟨object, hobject, hactive⟩ := (Option.any_eq_true _ _).mp hq
    exact ⟨object, by simp [World.exec, readAnswer, hobject], hactive⟩
  | resolveChild =>
    cases hchild : w.child with
    | ok client => exact ⟨client, hchild⟩
    | error e => simp [favours, hchild] at hq
  | accessReview group version plural ns => exact ⟨_, rfl, hq⟩
  | create k body =>
    simp only [Good, World.exec, World.create]
    split
    · exact Or.inr ⟨_, rfl, rfl⟩
    · exact Or.inl rfl
  | delete k =>
    simp only [Good, World.exec, World.delete]
    split <;> rfl
  | get k =>
    simp only [Good, World.exec]
    split
    · exact Or.inl ⟨_, rfl⟩
    · exact Or.inr ⟨_, rfl, rfl⟩
  | getNode client name =>
    simp only [Good, World.exec]
    split
    · rename_i node hnode
      refine Or.inl ⟨node, rfl, ?_⟩
      simpa [favours, hnode] using hq
    · exact Or.inr ⟨_, rfl, rfl⟩
  | patchStatus p => exact rfl
  | patchFinalizers fs => exact rfl
  | _ => trivial

def healthContract : Contract Request Response World (Except ReconcilerError Action) where
  answers := Good
  permits := fun _ _ _ => True
  returns := fun w _ h => Advances w.machine h

theorem healthContract_binds {w : World} (hw : Sound w) :
    healthContract.Binds w [] (machineSystem.program w) := by
  refine (reconcile_advances hw).meets.mono fun a h ha => ?_
  cases a with
  | ok _ => exact ha
  | error e => exact ha.elim

def finishedCount : MachineTrace → Nat
  | [] => 0
  | .finished _ _ :: t => finishedCount t + 1
  | _ :: t => finishedCount t

def progress (r : ScheduledMachine) : Option Phase × Bool := (r.phase, hasFinalizer r)

def advance : Option Phase × Bool → Option Phase × Bool
  | (phase, true) => (nextPhase phase, true)
  | (phase, false) => (phase, true)

structure Mirrors (m : ScheduledMachine) (cur : Current Request Response World) : Prop where
  phase : m.phase = (lastPhase cur.done).or cur.snapshot.machine.phase
  finalizers : m.finalizers = (lastFinalizers cur.done).or cur.snapshot.machine.finalizers

theorem Mirrors.called {w : World} {cur : Current Request Response World}
    (hm : Mirrors w.machine cur) (q : Request) :
    Mirrors (w.exec q .ok).2.machine ⟨cur.snapshot, ⟨q, (w.exec q .ok).1⟩ :: cur.done⟩ := by
  rw [exec_machine]
  cases q with
  | patchStatus p =>
    refine ⟨?_, hm.finalizers⟩
    have hphase : (w.patchStatus p).machine.phase = p.phase.or w.machine.phase := by
      simp [World.patchStatus, ScheduledMachine.phase]
    show (w.patchStatus p).machine.phase = _
    rw [hphase, hm.phase]
    simp only [lastPhase, Option.or_assoc]
  | patchFinalizers fs => exact ⟨hm.phase, rfl⟩
  | _ => exact ⟨hm.phase, hm.finalizers⟩

theorem Mirrors.progress_eq {m : ScheduledMachine} {cur : Current Request Response World}
    (hm : Mirrors m cur) (ha : Advances cur.snapshot.machine cur.done) :
    progress m = advance (progress cur.snapshot.machine) := by
  unfold progress
  cases hf : hasFinalizer cur.snapshot.machine with
  | true =>
    have hphase := ha.phase
    have hfinalizers := ha.finalizers
    rw [if_pos hf] at hphase hfinalizers
    have hkept : m.finalizers = cur.snapshot.machine.finalizers := by
      rw [hm.finalizers, hfinalizers]
      rfl
    rw [hm.phase, hphase]
    simp [advance, hasFinalizer, hkept] at hf ⊢
    exact hf
  | false =>
    have hphase := ha.phase
    have hfinalizers := ha.finalizers
    rw [if_neg (by simp [hf])] at hphase hfinalizers
    obtain ⟨fs, hfs, hmem⟩ := hfinalizers
    have hnew : m.finalizers = some fs := by
      rw [hm.finalizers, hfs]
      rfl
    rw [hm.phase, hphase]
    simp [advance, hasFinalizer, hnew, hmem]

section Runs

variable (start : Option Phase × Bool)

/-- The resource, or the one the reconcile in flight works on, is as many steps on as reconciles have
finished. -/
structure OnCourse (v : MachineView) : Prop where
  idle : v.current = none → progress v.world.machine = advance^[finishedCount v.trace] start
  flight : ∀ cur, v.current = some cur → Mirrors v.world.machine cur ∧
    progress cur.snapshot.machine = advance^[finishedCount v.trace] start

theorem onCourse_preserved :
    healthContract.Preserves machineSystem wellGuard (OnCourse start) where
  move v w hC hu := by
    obtain ⟨hstatus, hfinalizers⟩ := hu
    have hphase := hstatus.phase
    refine ⟨fun hidle => ?_, fun cur hcur => ?_⟩
    · have hkept : progress w.machine = progress v.world.machine := by
        simp only [progress, hasFinalizer, hphase, hfinalizers]
      exact hkept.trans (hC.idle hidle)
    · obtain ⟨hm, hprogress⟩ := hC.flight cur hcur
      exact ⟨⟨hphase.trans hm.phase, hfinalizers.trans hm.finalizers⟩, hprogress⟩
  start v hC hidle hsound := by
    refine ⟨healthContract_binds hsound, fun hnone => (by cases hnone), ?_⟩
    rintro cur ⟨⟩
    exact ⟨⟨rfl, rfl⟩, hC.idle hidle⟩
  call v cur q c hC hcur _ hG := by
    obtain ⟨rfl, hfavours⟩ := hG
    refine ⟨good_exec (hfavours cur hcur), fun hnone => (by cases hnone), ?_⟩
    rintro cur' ⟨⟩
    obtain ⟨hm, hprogress⟩ := hC.flight cur hcur
    exact ⟨hm.called q, hprogress⟩
  finish v cur a hC hcur ha := by
    refine ⟨fun _ => ?_, fun cur' hcur' => (by cases hcur')⟩
    obtain ⟨hm, hprogress⟩ := hC.flight cur hcur
    show progress v.world.machine = advance^[finishedCount v.trace + 1] start
    rw [Function.iterate_succ_apply', ← hprogress]
    exact hm.progress_eq ha
  crash v hC hG := hG.elim

end Runs

theorem advance_iterate_succ (n : Nat) (phase : Option Phase) :
    advance^[n] (phase, true) = (nextPhase^[n] phase, true) := by
  induction n with
  | zero => rfl
  | succ n ih => rw [Function.iterate_succ_apply', Function.iterate_succ_apply', ih]; rfl

theorem nextPhase_iterate (n : Nat) (phase : Option Phase) (ht : phase ≠ some .terminated) :
    nextPhase^[n + 3] phase = some .active ↔ phase ≠ some .error := by
  have hactive : ∀ n, nextPhase^[n] (some .active) = some .active :=
    fun n => Function.iterate_fixed rfl n
  have herror : ∀ n, nextPhase^[n] (some .error) = some .error :=
    fun n => Function.iterate_fixed rfl n
  have hthree : nextPhase^[n + 3] phase = nextPhase^[n] (nextPhase (nextPhase (nextPhase phase))) := by
    rw [Function.iterate_add_apply]
    rfl
  rw [hthree]
  cases phase with
  | none => simp [nextPhase, hactive]
  | some p => cases p <;> simp_all [nextPhase]

/-- After five reconciles in good circumstances the resource is Active, unless it was in Error. -/
theorem active_after_five_iff (w : World) (es : List (Event World Answer))
    (hterminated : w.machine.phase ≠ some .terminated)
    (hes : wellGuard.Allows machineSystem (.idle w) es)
    (hidle : (machineSystem.run (.idle w) es).inflight = none)
    (hcount : 5 ≤ finishedCount (machineSystem.run (.idle w) es).trace) :
    (machineSystem.run (.idle w) es).world.machine.phase = some .active ↔
      w.machine.phase ≠ some .error := by
  have hinit : OnCourse (progress w.machine) ⟨w, [], none⟩ :=
    ⟨fun _ => rfl, fun cur hcur => by cases hcur⟩
  have hcourse := ((onCourse_preserved (progress w.machine)).run_idle hinit hes).idle
    (by simp [Config.view, hidle])
  obtain ⟨n, hn⟩ : ∃ n, finishedCount (machineSystem.run (.idle w) es).trace = n + 4 :=
    ⟨_, (Nat.sub_add_cancel (by omega)).symm⟩
  have hphase : (machineSystem.run (.idle w) es).world.machine.phase =
      (advance^[n + 4] (progress w.machine)).1 := by
    rw [← hn]
    exact congrArg Prod.fst hcourse
  rw [hphase]
  cases hf : hasFinalizer w.machine with
  | true =>
    rw [show progress w.machine = (w.machine.phase, true) by simp [progress, hf],
      advance_iterate_succ]
    exact nextPhase_iterate (n + 1) _ hterminated
  | false =>
    rw [Function.iterate_succ_apply,
      show advance (progress w.machine) = (w.machine.phase, true) by simp [progress, hf, advance],
      advance_iterate_succ]
    exact nextPhase_iterate n _ hterminated

section Samples

def isSound (w : World) : Bool :=
  let spec := w.machine.spec
  let passes (x : Except ReconcilerError Unit) : Bool := x.toBool
  (w.machine.ns.any fun ns => shouldProcessResource w.machine.name ns spec.priority
      w.settings.instanceCount w.settings.instanceId) &&
    w.machine.deletionTimestamp.isNone && !spec.killSwitch && spec.enabled &&
    passes (validateClusterName spec.clusterName) &&
    passes (validateKillIfCommands spec.killIfCommands) &&
    passes (validateScheduleRef spec.schedule) &&
    (spec.bootstrapSpec.apiVersion.any fun v =>
      passes (validateApiGroup v allowedBootstrapApiGroups "bootstrap")) &&
    spec.bootstrapSpec.kind.isSome &&
    (spec.infrastructureSpec.apiVersion.any fun v =>
      passes (validateApiGroup v allowedInfrastructureApiGroups "infrastructure")) &&
    spec.infrastructureSpec.kind.isSome &&
    passes (validateTemplate spec.machineTemplate) &&
    passes (validateEmbeddedMetadata spec.bootstrapSpec "spec.bootstrapSpec") &&
    passes (validateEmbeddedMetadata spec.infrastructureSpec "spec.infrastructureSpec") &&
    w.machine.uid.isSome && (parseDuration spec.nodeDrainTimeout).toBool &&
    graceDone w.machine w.clock

theorem eq_ok_of_toBool {ε α : Type} {x : Except ε α} (h : x.toBool = true) : ∃ a, x = .ok a := by
  cases x with
  | ok a => exact ⟨a, rfl⟩
  | error e => cases h

theorem eq_ok_unit {ε : Type} {x : Except ε Unit} (h : x.toBool = true) : x = .ok () :=
  (eq_ok_of_toBool h).elim fun _ ha => ha

theorem sound_of_isSound {w : World} (h : isSound w = true) : Sound w := by
  simp only [isSound, Bool.and_eq_true, Bool.not_eq_true', Option.isNone_iff_eq_none,
    Option.any_eq_true, Option.isSome_iff_exists] at h
  obtain ⟨⟨⟨⟨⟨⟨⟨⟨⟨⟨⟨⟨⟨⟨⟨⟨⟨ns, hns, howned⟩, hlive⟩, hkill⟩, henabled⟩, hcluster⟩, hcommands⟩,
    hschedule⟩, bv, hbv, hbg⟩, bk, hbk⟩, iv, hiv, hig⟩, ik, hik⟩, htemplate⟩, hbm⟩, him⟩, uid, huid⟩,
    hdrain⟩, hgrace⟩ := h
  refine ⟨by simp [hns], fun ns' hns' => ?_, hlive, hkill, henabled, eq_ok_unit hcluster,
    eq_ok_unit hcommands, eq_ok_unit hschedule, ⟨bv, bk, hbv, hbk, eq_ok_unit hbg⟩,
    ⟨iv, ik, hiv, hik, eq_ok_unit hig⟩, eq_ok_unit htemplate, eq_ok_unit hbm, eq_ok_unit him,
    by simp [huid], eq_ok_of_toBool hdrain, hgrace⟩
  cases hns.symm.trans hns'
  exact howned

def wellTests : Tests wellGuard where
  start v := isSound v.world
  call v q c := c == .ok && v.current.all fun cur => favours v.world cur.snapshot.machine q
  start_sound _ h := sound_of_isSound h
  call_sound v q c h := by
    obtain ⟨hc, hfavours⟩ := (Bool.and_eq_true _ _).mp h
    refine ⟨by simpa using hc, fun cur hcur => ?_⟩
    rw [hcur] at hfavours
    exact hfavours
  crash _ := false
  crash_sound _ h := by cases h

def fiveReconciles : List (Event World Answer) :=
  reconcileFor 2 ++ reconcileFor 16 ++ reconcileFor 5 ++ reconcileFor 5 ++ reconcileFor 5

theorem new_resource_becomes_active :
    finishedCount (machineSystem.run (.idle sampleWorld) fiveReconciles).trace = 5 ∧
      ((machineSystem.run (.idle sampleWorld) fiveReconciles).world.machine.phase = some .active ↔
        sampleWorld.machine.phase ≠ some .error) := by
  have hrun : finishedCount (machineSystem.run (.idle sampleWorld) fiveReconciles).trace = 5 ∧
      (machineSystem.run (.idle sampleWorld) fiveReconciles).inflight.isNone = true ∧
      wellTests.passAll machineSystem (.idle sampleWorld) fiveReconciles = true := by
    decide +kernel
  obtain ⟨hcount, hidle, hpass⟩ := hrun
  refine ⟨hcount, active_after_five_iff sampleWorld fiveReconciles (by decide +kernel) ?_ ?_ ?_⟩
  · exact Tests.allows hpass
  · exact Option.isNone_iff_eq_none.mp hidle
  · exact Nat.le_of_eq hcount.symm

def sampleFailed : Config Request Response World Answer (Except ReconcilerError Action) :=
  machineSystem.run (.idle sampleWorld) (reconcileFor 2 ++ reconcileFor 10 ++
    .next (.fail (.api 500 "internal error") false) :: List.replicate 3 (.next .ok))

/-- From then on every call succeeds, and six reconciles later the resource is still in Error. -/
theorem error_is_a_dead_end :
    let es := (List.replicate 6 (reconcileFor 4)).flatten
    let c := machineSystem.run (.idle sampleFailed.world) es
    sampleFailed.inflight.isNone = true ∧ sampleFailed.world.machine.phase = some .error ∧
      wellTests.passAll machineSystem (.idle sampleFailed.world) es = true ∧
      finishedCount c.trace = 6 ∧ c.world.machine.phase = some .error := by
  decide +kernel

end Samples

end FiveSpot.Machine
