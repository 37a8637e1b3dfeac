import FiveSpot.Machine.Frame

/-!
# Objects that are the controller's to delete

The names of the objects to delete are computed from the specification as it is at that time, without
the check of the API group that comes before every create. They are the names of objects the
controller created if the specification has not been edited since, and if no create was answered
with the 409 of an object that somebody else had made.
-/

namespace FiveSpot.Machine

set_option autoImplicit false

open Effects

def created : MachineTrace → List ObjectKey
  | [] => []
  | .called w (.create version k body) c :: t =>
      match (w.exec (.create version k body) c).1 with
      | .ok _ => k :: created t
      | .error _ => created t
  | _ :: t => created t

section Created

variable {w : World} {q : Request} {c : Answer} {t : MachineTrace} {k : ObjectKey}

theorem mem_created_cons {o : MachineObs} (hk : k ∈ created t) : k ∈ created (o :: t) := by
  unfold created
  split
  · rename_i heq
    cases heq
  · rename_i heq
    cases heq
    split
    · exact List.mem_cons_of_mem _ hk
    · exact hk
  · rename_i heq
    cases heq
    exact hk

theorem mem_created_called (hk : k ∈ created (.called w q c :: t)) :
    k ∈ created t ∨ ∃ version body, q = .create version k body := by
  unfold created at hk
  split at hk
  · rename_i heq
    cases heq
  · rename_i heq
    cases heq
    split at hk
    · rcases List.mem_cons.mp hk with rfl | hk
      · exact Or.inr ⟨_, _, rfl⟩
      · exact Or.inl hk
    · exact Or.inl hk
  · rename_i heq
    cases heq
    exact Or.inl hk

theorem mem_created_of_ok {version : String} {body : Json}
    (h : (w.exec (.create version k body) c).1 = .ok ()) :
    k ∈ created (.called w (.create version k body) c :: t) := by
  simp [created, h]

end Created

def holdsObjects (phase : Option Phase) : Bool :=
  isRunning phase || phase == some .emergencyRemove

/-- Every delete is of an object created before, in a group that objects are created in. -/
structure DeletesOwn (o : MachineObs) (t : MachineTrace) : Prop where
  own : ∀ w version k c, o = .called w (.delete version k) c →
    k ∈ created t ∧ k.group ∈ creatableGroups

/--
When only own objects are deleted. Nobody else writes the phase, and the names of the objects are not
edited while the resource has objects or is being reconciled; a create is answered with 409 only for
an object the controller created; and a reclaim is found only for a resource that has objects.
-/
def ownershipGuard : MachineGuard where
  move v w := w.machine.phase = v.world.machine.phase ∧
    (v.current.isSome = true ∨ holdsObjects v.world.machine.phase = true →
      ownKeys w.machine = ownKeys v.world.machine)
  start _ := True
  call v q c := (∀ version k body e, q = .create version k body →
      (v.world.exec (.create version k body) c).1 = .error e → e.isAlreadyExists = true →
      k ∈ created v.trace) ∧
    ∀ cur, v.current = some cur →
      Reclaiming cur.snapshot.machine (⟨q, (v.world.exec q c).1⟩ :: cur.done) →
      holdsObjects cur.snapshot.machine.phase = true
  crash _ := True

/-- What is known of the objects of a reconcile in flight. -/
structure Entitled (v : MachineView) (cur : Current Request Response World) : Prop where
  keys : ownKeys v.world.machine = ownKeys cur.snapshot.machine
  holds : holdsObjects cur.snapshot.machine.phase = true →
    ∀ k ∈ ownKeys cur.snapshot.machine, k ∈ created v.trace
  made : ∀ k, Created cur.done k → k ∈ created v.trace
  reclaiming : Reclaiming cur.snapshot.machine cur.done →
    holdsObjects cur.snapshot.machine.phase = true

structure OwnsAll (v : MachineView) : Prop where
  deletes : Throughout DeletesOwn v.trace
  groups : ∀ k ∈ created v.trace, k.group ∈ creatableGroups
  holds : holdsObjects v.world.machine.phase = true →
    ∀ k ∈ ownKeys v.world.machine, k ∈ created v.trace
  flight : ∀ cur, v.current = some cur → Entitled v cur

section Step

variable {v : MachineView} {cur : Current Request Response World} {q : Request} {c : Answer}

theorem holdsObjects_of_isRunning {phase : Option Phase} (h : isRunning phase = true) :
    holdsObjects phase = true := by
  simp [holdsObjects, h]

theorem Entitled.holds_of_removing (hE : Entitled v cur)
    (hr : Removing cur.snapshot.machine cur.done) :
    holdsObjects cur.snapshot.machine.phase = true := by
  cases hr with
  | deleted _ hrun | killed _ hrun => exact holdsObjects_of_isRunning hrun
  | reclaimed _ hr => exact hE.reclaiming hr
  | elapsed hphase =>
    rw [hphase]
    rfl

theorem OwnsAll.deletes_called (hO : OwnsAll v) (hcur : v.current = some cur)
    (hq : Permitted cur.snapshot.machine cur.done q) : DeletesOwn (.called v.world q c) v.trace where
  own w version k c' heq := by
    cases heq
    have hE := hO.flight cur hcur
    cases hq with
    | quiet hq => cases hq
    | delete hk _ hr =>
      have hmem := hE.holds (hE.holds_of_removing hr) k hk
      exact ⟨hmem, hO.groups k hmem⟩

theorem Entitled.made_called (hE : Entitled v cur) (hG : ownershipGuard.call v q c) (k : ObjectKey)
    (hk : Created (⟨q, (v.world.exec q c).1⟩ :: cur.done) k) :
    k ∈ created (.called v.world q c :: v.trace) := by
  obtain ⟨version, body, x, hx, hdone⟩ := hk
  rcases List.mem_cons.mp hx with heq | hx
  · obtain ⟨rfl, hanswer⟩ := Sigma.mk.inj heq
    have hanswer := (eq_of_heq hanswer).symm
    cases x with
    | ok _ => exact mem_created_of_ok hanswer
    | error e => exact mem_created_cons (hG.1 version k body e rfl hanswer hdone)
  · exact mem_created_cons (hE.made k ⟨version, body, x, hx, hdone⟩)

theorem Entitled.holds_of_moves {phase : Phase} {reason : String} (hE : Entitled v cur)
    (hm : Moves cur.snapshot.machine cur.done phase reason)
    (hphase : holdsObjects (some phase) = true) :
    ∀ k ∈ ownKeys cur.snapshot.machine, k ∈ created v.trace := by
  cases hm with
  | added _ _ hmade => exact fun k hk => hE.made k (hmade k hk)
  | emergencyRemove _ hr => exact hE.holds (hE.reclaiming hr)
  | shutdownDisabled _ hp | shutdownClosed _ hp =>
    refine hE.holds ?_
    rw [hp]
    rfl
  | _ => cases hphase

theorem Entitled.called (hE : Entitled v cur) (hcur : v.current = some cur)
    (hG : ownershipGuard.call v q c) :
    Entitled (v.called machineSystem cur q c)
      ⟨cur.snapshot, ⟨q, (v.world.exec q c).1⟩ :: cur.done⟩ where
  keys := by
    show ownKeys (v.world.exec q c).2.machine = _
    rw [exec_machine, (sameIdentity_machineAfter v.world q c).ownKeys_eq]
    exact hE.keys
  holds hphase k hk := mem_created_cons (hE.holds hphase k hk)
  made := hE.made_called hG
  reclaiming := hG.2 cur hcur

theorem OwnsAll.holds_called (hO : OwnsAll v) (hcur : v.current = some cur)
    (hq : Permitted cur.snapshot.machine cur.done q)
    (hphase : holdsObjects (v.world.exec q c).2.machine.phase = true) :
    ∀ k ∈ ownKeys (v.world.exec q c).2.machine, k ∈ created (.called v.world q c :: v.trace) := by
  have hE := hO.flight cur hcur
  intro k hk
  rw [exec_machine] at hphase hk
  rw [(sameIdentity_machineAfter v.world q c).ownKeys_eq] at hk
  refine mem_created_cons ?_
  cases hnew : (machineAfter v.world q c).phase with
  | none =>
    rw [hnew] at hphase
    cases hphase
  | some phase =>
    rw [hnew] at hphase
    rcases moves_of_phase_called hq hnew with hbefore | ⟨reason, hm⟩
    · exact hO.holds (hbefore ▸ hphase) k hk
    · exact hE.holds_of_moves hm hphase k (hE.keys ▸ hk)

theorem ownsAll_preserved : machineContract.Preserves machineSystem ownershipGuard OwnsAll where
  move v w hO hG := by
    obtain ⟨hphase, hkeys⟩ := hG
    refine ⟨.cons ⟨fun _ _ _ _ h => by cases h⟩ hO.deletes, hO.groups, fun hholds k hk => ?_,
      fun cur hcur => ?_⟩
    · have hholds : holdsObjects v.world.machine.phase = true := hphase ▸ hholds
      exact hO.holds hholds k (hkeys (Or.inr hholds) ▸ hk)
    · have hE := hO.flight cur hcur
      have hbusy : v.current.isSome = true := Option.isSome_iff_exists.mpr ⟨cur, hcur⟩
      exact ⟨(hkeys (Or.inl hbusy)).trans hE.keys, hE.holds, hE.made, hE.reclaiming⟩
  start v hO _ _ := by
    refine ⟨machineContract_binds _, .cons ⟨fun _ _ _ _ h => by cases h⟩ hO.deletes, hO.groups,
      hO.holds, ?_⟩
    rintro cur ⟨⟩
    refine ⟨rfl, hO.holds, ?_, ?_⟩
    · rintro k ⟨_, _, _, hx, _⟩
      cases hx
    · rintro ⟨_, _, _, _, _, hmem, _⟩
      cases hmem
  call v cur q c hO hcur hq hG := by
    refine ⟨trivial, .cons (hO.deletes_called hcur hq) hO.deletes, fun k hk => ?_,
      hO.holds_called hcur hq, ?_⟩
    · rcases mem_created_called hk with hk | ⟨version, body, rfl⟩
      · exact hO.groups k hk
      · cases hq with
        | quiet hq => cases hq
        | create _ _ _ hgroup => exact hgroup
    · rintro cur' ⟨⟩
      exact (hO.flight cur hcur).called hcur hG
  finish v cur a hO _ _ :=
    ⟨.cons ⟨fun _ _ _ _ h => by cases h⟩ hO.deletes, hO.groups, hO.holds, fun cur' h => by cases h⟩
  crash v hO _ :=
    ⟨.cons ⟨fun _ _ _ _ h => by cases h⟩ hO.deletes, hO.groups, hO.holds, fun cur' h => by cases h⟩

/-- What a resource that starts without objects deletes, it has created. -/
theorem deletes_only_own (w : World) (es : List (Event World Answer))
    (hw : holdsObjects w.machine.phase = false)
    (hes : ownershipGuard.Allows machineSystem (.idle w) es) :
    Throughout DeletesOwn (machineSystem.run (.idle w) es).trace := by
  have hinit : OwnsAll ⟨w, [], none⟩ := by
    refine ⟨.nil, fun k hk => (by cases hk), fun h => ?_, fun cur h => by cases h⟩
    cases hw.symm.trans h
  exact (ownsAll_preserved.run_idle hinit hes).deletes

end Step

section Runs

def deletes : MachineTrace → List ObjectKey
  | [] => []
  | .called _ (.delete _ k) _ :: t => k :: deletes t
  | _ :: t => deletes t

/-- A create is not answered with 409, or the object is the controller's. -/
def freshOrCreated (v : MachineView) (q : Request) (c : Answer) : Bool :=
  match q with
  | .create version k body =>
      match (v.world.exec (.create version k body) c).1 with
      | .ok _ => true
      | .error e => !e.isAlreadyExists || (created v.trace).contains k
  | _ => true

def ownershipTests : Tests ownershipGuard where
  start _ := true
  call v q c := freshOrCreated v q c && v.current.all fun cur =>
    !(⟨q, (v.world.exec q c).1⟩ :: cur.done : Log).any readsRequest
  start_sound _ _ := trivial
  call_sound v q c h := by
    obtain ⟨hfresh, hreads⟩ := (Bool.and_eq_true _ _).mp h
    refine ⟨?_, fun cur hcur hr => ?_⟩
    · rintro version k body e rfl hanswer hexists
      simpa [freshOrCreated, hanswer, hexists] using hfresh
    · rw [hcur] at hreads
      exact absurd hr (not_reclaiming_of_reads (by simpa using hreads))
  crash _ := true
  crash_sound _ _ := trivial

theorem admits_kill_owned (c : Config Request Response World Answer (Except ReconcilerError Action)) :
    ownershipGuard.Admits c (.move (killSample c.world)) := ⟨rfl, fun _ => rfl⟩

def sampleOwned : List (Event World Answer) :=
  reconcileFor 2 ++ reconcileFor 20 ++ .move (killSample sampleAdded.world) :: reconcileFor 9

theorem kill_deletes_own :
    (deletes (machineSystem.run (.idle sampleWorld) sampleOwned).trace).length = 3 ∧
      Throughout DeletesOwn (machineSystem.run (.idle sampleWorld) sampleOwned).trace := by
  have hrun : (deletes (machineSystem.run (.idle sampleWorld) sampleOwned).trace).length = 3 ∧
      ownershipTests.passAll machineSystem (.idle sampleWorld)
        (reconcileFor 2 ++ reconcileFor 20) = true ∧
      ownershipTests.passAll machineSystem
        (machineSystem.step sampleAdded (.move (killSample sampleAdded.world)))
        (reconcileFor 9) = true := by
    decide +kernel
  refine ⟨hrun.1, deletes_only_own sampleWorld sampleOwned (by decide) ?_⟩
  exact Tests.allows_move (admits_kill_owned sampleAdded) hrun.2

/-- The bootstrap object of the specification is now a Secret. -/
def editSample (w : World) : World :=
  { w with
    machine := { w.machine with
      spec := { w.machine.spec with
        bootstrapSpec := ⟨.obj [("apiVersion", .str "v1"), ("kind", .str "Secret")]⟩ } } }

/-- Objects under the names of the resource's own that somebody else made. -/
def foreignSample (w : World) : World := { w with objects := fun _ => some ⟨.obj [], false⟩ }

/-- After the edit the kill switch deletes a Secret; and objects that were there before count as
created and are deleted, all three of them. -/
theorem kill_deletes_foreign :
    let c := machineSystem.run sampleAdded
      (.move (killSample (editSample sampleAdded.world)) :: reconcileFor 9)
    let a := machineSystem.run (.idle (foreignSample sampleWorld)) (reconcileFor 2 ++ reconcileFor 20)
    let a' := machineSystem.run a (.move (killSample a.world) :: reconcileFor 9)
    (⟨"", "secrets", "default", "spot"⟩ ∈ deletes c.trace ∧
        ⟨"", "secrets", "default", "spot"⟩ ∉ created c.trace ∧ "" ∉ creatableGroups) ∧
      created a'.trace = [] ∧ (deletes a'.trace).length = 3 := by
  decide +kernel

end Runs

end FiveSpot.Machine
