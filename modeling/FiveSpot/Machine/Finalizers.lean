import FiveSpot.Machine.Ordinary
import FiveSpot.Machine.Terminal

/-!
# Finalizers

A reconcile writes the finalizers twice in the life of a machine: it adds its own to the list it read
when it started, and at the end it takes its own out of such a list. The write replaces the stored
list. Other controllers keep finalizers in the same list and may change it in between. The finalizer
of the controller itself is there before the first object is asked for.
-/

namespace FiveSpot.Machine

set_option autoImplicit false

open Effects Effects.Prog

/-- A reconcile of `r` writes a list of finalizers only with the foreign ones of `r` in it. -/
inductive Finalizing (r : ScheduledMachine) : Request → Prop where
  | other {q : Request} : (∀ fs, q ≠ .patchFinalizers fs) → Finalizing r q
  | write {fs : List String} :
      (fs.filter fun f => f != finalizerScheduledMachine) = foreignFinalizers r →
      Finalizing r (.patchFinalizers fs)

theorem finalizing_of_reclaims {r : ScheduledMachine} {q : Request} (hq : q.reclaims = true) :
    Finalizing r q := by
  refine .other ?_
  rintro fs rfl
  cases hq

theorem finalizing_of_calm {r : ScheduledMachine} {q : Request} (hq : q.calm = true) :
    Finalizing r q := by
  refine .other ?_
  rintro fs rfl
  cases hq

theorem finalizes_reconcile (s : Settings) (r : ScheduledMachine) (h : Log) :
    Keeps (fun _ q => Finalizing r q) (reconcileScheduledMachine s r) h (fun _ _ => True)
      fun _ _ => True := by
  refine keeps_reconcile (fun _ _ => finalizing_of_reclaims) (fun _ _ hfs => .write hfs)
    fun ns h' _ => ⟨?_⟩
  exact meets_outcome_mono
    (uses_run_meets (quietly_enrichActive r ns).uses fun _ _ _ => finalizing_of_calm)
    (fun _ _ _ => trivial) fun _ _ _ => trivial

def finalizerContract : Contract Request Response World (Except ReconcilerError Action) where
  answers _ _ _ := True
  permits w _ q := Finalizing w.machine q
  returns _ _ _ := True

theorem finalizerContract_binds (w : World) :
    finalizerContract.Binds w [] (machineSystem.program w) :=
  (finalizes_reconcile w.settings w.machine []).meets.mono fun _ _ _ => trivial

/-- Nobody else's finalizer is lost and none is brought back. -/
def KeepsForeign (before after : ScheduledMachine) : Prop :=
  ∀ f, f ∈ foreignFinalizers after ↔ f ∈ foreignFinalizers before

instance (before after : ScheduledMachine) : Decidable (KeepsForeign before after) :=
  decidable_of_iff (foreignFinalizers after ⊆ foreignFinalizers before ∧
      foreignFinalizers before ⊆ foreignFinalizers after)
    ⟨fun h _ => ⟨fun hf => h.1 hf, fun hf => h.2 hf⟩,
      fun h => ⟨fun _ hf => (h _).mp hf, fun _ hf => (h _).mpr hf⟩⟩

/--
Whatever others do in between, the write of a reconcile keeps their finalizers exactly when these are
the same as when the reconcile read the machine.
-/
theorem finalizer_write_keeps_foreign_iff (w : World) (es : List (Event World Answer))
    (cur : Current Request Response World) (fs : List String)
    (k : Response (.patchFinalizers fs) → Prog Request Response (Except ReconcilerError Action))
    (hpending : (machineSystem.run (.idle w) es).inflight =
      some (cur, .call (.patchFinalizers fs) k)) :
    KeepsForeign (machineSystem.run (.idle w) es).world.machine
        ((machineSystem.run (.idle w) es).world.patchFinalizers fs).machine ↔
      KeepsForeign cur.snapshot.machine (machineSystem.run (.idle w) es).world.machine := by
  have hgoverned : finalizerContract.Governs (machineSystem.run (.idle w) es) :=
    Contract.governs_run finalizerContract_binds (fun _ _ _ => trivial) w es
  obtain ⟨hpermits, -⟩ := hgoverned cur _ hpending
  have hwritten : foreignFinalizers
        ((machineSystem.run (.idle w) es).world.patchFinalizers fs).machine =
      foreignFinalizers cur.snapshot.machine := by
    cases hpermits with
    | other hother => exact absurd rfl (hother fs)
    | write hfs => exact hfs
  unfold KeepsForeign
  rw [hwritten]
  exact forall_congr' fun f => ⟨Iff.symm, Iff.symm⟩

def sampleAdding : List (Event World Answer) := reconcileFor 1

theorem finalizer_write_keeps_foreign_sample :
    KeepsForeign (machineSystem.run (.idle sampleWorld) sampleAdding).world.machine
      ((machineSystem.run (.idle sampleWorld) sampleAdding).world.patchFinalizers
        [finalizerScheduledMachine]).machine :=
  (finalizer_write_keeps_foreign_iff sampleWorld sampleAdding _ [finalizerScheduledMachine] _
    rfl).mpr (by decide +kernel)

def protectSample (w : World) : World :=
  { w with machine := { w.machine with finalizers := some ["foregroundDeletion"] } }

/-- A finalizer added between the read and the write is gone after the write. -/
theorem foreign_finalizer_lost :
    (machineSystem.run (.idle sampleWorld)
        (sampleAdding ++ [.move (protectSample sampleWorld)])).world.machine.finalizers =
      some ["foregroundDeletion"] ∧
    (machineSystem.run (.idle sampleWorld)
        (sampleAdding ++ [.move (protectSample sampleWorld), .next .ok])).world.machine.finalizers =
      some [finalizerScheduledMachine] := by
  decide +kernel

section Own

/-- Nobody else takes the finalizer off, and a deletion is not taken back. -/
def finalizerGuard : MachineGuard where
  move v w := (hasFinalizer v.world.machine = true → hasFinalizer w.machine = true) ∧
    (w.machine.deletionTimestamp = none → v.world.machine.deletionTimestamp = none)
  start _ := True
  call _ _ _ := True
  crash _ := True

/-- What the stored resource keeps of the one the reconcile in flight was started on. -/
structure Secured (w : World) (cur : Current Request Response World) : Prop where
  live : w.machine.deletionTimestamp = none → cur.snapshot.machine.deletionTimestamp = none
  finalizer : Governed cur.snapshot.machine → hasFinalizer w.machine = true

/-- Objects have been asked for only under the finalizer, which stays until the resource is deleted. -/
structure UnderFinalizer (v : MachineView) : Prop where
  flight : ∀ cur, v.current = some cur → Secured v.world cur
  created : creates v.trace ≠ [] → v.world.machine.deletionTimestamp = none →
    hasFinalizer v.world.machine = true

theorem hasFinalizer_machineAfter {w : World} {q : Request} {c : Answer}
    (hq : ∀ fs, q = .patchFinalizers fs → finalizerScheduledMachine ∈ fs)
    (hw : hasFinalizer w.machine = true) : hasFinalizer (machineAfter w q c) = true := by
  cases q with
  | patchFinalizers fs =>
    simp only [machineAfter]
    split
    · simpa [hasFinalizer, World.patchFinalizers] using hq fs rfl
    · exact hw
  | patchStatus _ | patchDisableSchedule =>
    simp only [machineAfter]
    split <;> exact hw
  | _ => exact hw

theorem finalizer_mem_of_permitted {r : ScheduledMachine} {h : Log} {fs : List String}
    (hq : Permitted r h (.patchFinalizers fs)) (hlive : r.deletionTimestamp = none) :
    finalizerScheduledMachine ∈ fs := by
  cases hq with
  | quiet hq => cases hq
  | addFinalizer hmem => exact hmem
  | dropFinalizer _ hdeleted =>
    rw [hlive] at hdeleted
    cases hdeleted

theorem Secured.called {w : World} {cur : Current Request Response World} {q : Request} {c : Answer}
    (hS : Secured w cur) (hq : Permitted cur.snapshot.machine cur.done q) :
    Secured (w.exec q c).2 ⟨cur.snapshot, ⟨q, (w.exec q c).1⟩ :: cur.done⟩ where
  live hlive := by
    rw [exec_machine, deletionTimestamp_machineAfter] at hlive
    exact hS.live hlive
  finalizer hg := by
    rw [exec_machine]
    refine hasFinalizer_machineAfter (fun fs hfs => ?_) (hS.finalizer hg)
    subst hfs
    exact finalizer_mem_of_permitted hq hg.live

theorem UnderFinalizer.created_called {v : MachineView} {cur : Current Request Response World}
    {q : Request} {c : Answer} (hU : UnderFinalizer v) (hcur : v.current = some cur)
    (hq : Permitted cur.snapshot.machine cur.done q)
    (hasked : creates (.called v.world q c :: v.trace) ≠ [])
    (hlive : (machineAfter v.world q c).deletionTimestamp = none) :
    hasFinalizer (machineAfter v.world q c) = true := by
  have hS := hU.flight cur hcur
  rw [deletionTimestamp_machineAfter] at hlive
  refine hasFinalizer_machineAfter (fun fs hfs => ?_) ?_
  · subst hfs
    exact finalizer_mem_of_permitted hq (hS.live hlive)
  cases hcreate : q.isCreate with
  | false =>
    rw [creates_called hcreate] at hasked
    exact hU.created hasked hlive
  | true =>
    cases hq with
    | quiet hq => simp [Request.isCreate_of_steady (Request.steady_of_quiet hq)] at hcreate
    | create hadding => exact hS.finalizer hadding.governed
    | _ => cases hcreate

theorem underFinalizer_preserved :
    machineContract.Preserves machineSystem finalizerGuard UnderFinalizer where
  move v w hU hG := by
    refine ⟨fun cur hcur => ?_, fun hasked hlive => hG.1 (hU.created hasked (hG.2 hlive))⟩
    have hS := hU.flight cur hcur
    exact ⟨fun hlive => hS.live (hG.2 hlive), fun hg => hG.1 (hS.finalizer hg)⟩
  start v hU _ _ := by
    refine ⟨machineContract_binds _, ?_, hU.created⟩
    rintro cur ⟨⟩
    exact ⟨id, fun hg => hg.finalizer⟩
  call v cur q c hU hcur hq _ := by
    refine ⟨trivial, ?_, ?_⟩
    · rintro cur' ⟨⟩
      exact (hU.flight cur hcur).called hq
    · intro hasked hlive
      show hasFinalizer (v.world.exec q c).2.machine = true
      have hlive : (v.world.exec q c).2.machine.deletionTimestamp = none := hlive
      rw [exec_machine] at hlive ⊢
      exact hU.created_called hcur hq hasked hlive
  finish v cur a hU _ _ := ⟨fun cur' h => (by cases h), hU.created⟩
  crash v hU _ := ⟨fun cur' h => (by cases h), hU.created⟩

/-- A resource for which objects were ever asked for carries the finalizer for as long as it is not being
deleted, so that its deletion waits for the controller. -/
theorem objects_are_under_finalizer (w : World) (es : List (Event World Answer))
    (hes : finalizerGuard.Allows machineSystem (.idle w) es)
    (hasked : creates (machineSystem.run (.idle w) es).trace ≠ [])
    (hlive : (machineSystem.run (.idle w) es).world.machine.deletionTimestamp = none) :
    hasFinalizer (machineSystem.run (.idle w) es).world.machine = true := by
  have hinit : UnderFinalizer (⟨w, [], none⟩ : MachineView) :=
    ⟨fun cur h => (by cases h), fun hasked => absurd rfl hasked⟩
  exact (underFinalizer_preserved.run_idle hinit hes).created hasked hlive

theorem objects_under_finalizer_sample :
    creates sampleAdded.trace ≠ [] ∧ hasFinalizer sampleAdded.world.machine = true := by
  have hrun : creates sampleAdded.trace ≠ [] ∧
      sampleAdded.world.machine.deletionTimestamp = none := by
    decide +kernel
  refine ⟨hrun.1, objects_are_under_finalizer sampleWorld (reconcileFor 2 ++ reconcileFor 20) ?_
    hrun.1 hrun.2⟩
  exact Guard.allows_of_unmoved (fun _ => trivial) (fun _ _ _ => trivial) (fun _ => trivial) rfl

end Own

end FiveSpot.Machine
