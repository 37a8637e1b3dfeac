import FiveSpot.Machine.Frame

/-!
# Objects that are left behind

The objects a run has created and not yet seen deleted, read off its trace. A reconcile that finds
nothing left over where the code will not clean up keeps the two ends of the life cycle clean: a
resource recorded as Inactive or Terminated, and one whose finalizer is taken away.
-/

namespace FiveSpot.Machine

set_option autoImplicit false

open Effects

/-- The objects created so far for which no delete has since been answered with success or 404. -/
def leftover : MachineTrace → List ObjectKey
  | [] => []
  | .called w (.create _ k _) c :: t =>
      if c.applied && (w.objects k).isNone then k :: leftover t else leftover t
  | .called w (.delete version k) c :: t =>
      if deleteDone (w.exec (.delete version k) c).1 then (leftover t).filter (· ≠ k) else leftover t
  | _ :: t => leftover t

section Leftover

variable {w : World} {q : Request} {c : Answer} {t : MachineTrace} {k : ObjectKey}

theorem mem_of_mem_leftover_called (hk : k ∈ leftover (.called w q c :: t)) :
    k ∈ leftover t ∨ ∃ version body, q = .create version k body := by
  unfold leftover at hk
  split at hk
  · cases ‹_ = _›
  · cases ‹_ = _›
    split at hk
    · rcases List.mem_cons.mp hk with rfl | hk
      · exact Or.inr ⟨_, _, rfl⟩
      · exact Or.inl hk
    · exact Or.inl hk
  · cases ‹_ = _›
    split at hk
    · exact Or.inl (List.mem_filter.mp hk).1
    · exact Or.inl hk
  · cases ‹_ = _›
    exact Or.inl hk

theorem mem_leftover_of_not_create (hq : q.isCreate = false)
    (hk : k ∈ leftover (.called w q c :: t)) : k ∈ leftover t := by
  rcases mem_of_mem_leftover_called hk with hk | ⟨version, body, rfl⟩
  · exact hk
  · simp [Request.isCreate] at hq

theorem leftover_called_eq_nil (hq : q.isCreate = false) (ht : leftover t = []) :
    leftover (.called w q c :: t) = [] := by
  refine List.eq_nil_iff_forall_not_mem.mpr fun k hk => ?_
  have hmem := mem_leftover_of_not_create hq hk
  rw [ht] at hmem
  cases hmem

theorem not_mem_leftover_of_deleted {version : String}
    (hd : deleteDone (w.exec (.delete version k) c).1 = true) :
    k ∉ leftover (.called w (.delete version k) c :: t) := by
  simp [leftover, hd]

end Leftover

/-- What holds of the left over objects in every run: they are the resource's own, and a reconcile
that has created nothing has none of those it deleted. -/
structure Ledger (v : MachineView) : Prop where
  own : ∀ k ∈ leftover v.trace, k ∈ ownKeys v.world.machine
  tracks : ∀ cur, v.current = some cur → Tracks v.world cur
  deleted : ∀ cur, v.current = some cur → NoCreate cur.done →
    ∀ k, Deleted cur.done k → k ∉ leftover v.trace

namespace Ledger

variable {v : MachineView} {cur : Current Request Response World}

theorem initial (w : World) : Ledger ⟨w, [], none⟩ where
  own k hk := by cases hk
  tracks cur hcur := by cases hcur
  deleted cur hcur := by cases hcur

theorem moved {w : World} (hL : Ledger v) (hu : Undisturbed v.world w) : Ledger (v.moved w) where
  own k hk := hu.identity.ownKeys_eq ▸ hL.own k hk
  tracks cur hcur := (hL.tracks cur hcur).moved hu
  deleted := hL.deleted

theorem started (hL : Ledger v) : Ledger v.started where
  own := hL.own
  tracks cur hcur := by
    cases hcur
    exact .started v.world
  deleted cur hcur _ k hk := by
    cases hcur
    obtain ⟨_, x, hx, _⟩ := hk
    cases hx

theorem idle {w : World} {t : MachineTrace} (hL : Ledger v) (hw : w.machine = v.world.machine)
    (ht : leftover t = leftover v.trace) : Ledger ⟨w, t, none⟩ where
  own k hk := by
    rw [hw]
    exact hL.own k (ht ▸ hk)
  tracks cur hcur := by cases hcur
  deleted cur hcur := by cases hcur

theorem mem_ownKeys_snapshot (hL : Ledger v) (hcur : v.current = some cur) {k : ObjectKey}
    (hk : k ∈ leftover v.trace) : k ∈ ownKeys cur.snapshot.machine :=
  (hL.tracks cur hcur).identity.ownKeys_eq ▸ hL.own k hk

theorem called {q : Request} (c : Answer) (hL : Ledger v) (hcur : v.current = some cur)
    (hq : Permitted cur.snapshot.machine cur.done q) :
    Ledger (v.called machineSystem cur q c) where
  own k hk := by
    have htrack := (hL.tracks cur hcur).called q c
    have hkeys : ownKeys (v.called machineSystem cur q c).world.machine =
        ownKeys cur.snapshot.machine := htrack.identity.ownKeys_eq
    rw [hkeys]
    rcases mem_of_mem_leftover_called hk with hk | ⟨version, body, rfl⟩
    · exact hL.mem_ownKeys_snapshot hcur hk
    · cases hq with
      | quiet hq => cases hq
      | create _ _ hmem => exact hmem
  tracks cur' hcur' := by
    cases hcur'
    exact (hL.tracks cur hcur).called q c
  deleted cur' hcur' hn k hd hk := by
    cases hcur'
    have hcreate : q.isCreate = false := hn _ List.mem_cons_self
    have hk' := mem_leftover_of_not_create hcreate hk
    obtain ⟨version, x, hx, hdone⟩ := hd
    rcases List.mem_cons.mp hx with heq | hx
    · cases heq
      exact not_mem_leftover_of_deleted hdone hk
    · exact hL.deleted cur hcur (fun y hy => hn y (List.mem_cons_of_mem _ hy)) k
        ⟨version, x, hx, hdone⟩ hk'

theorem eq_nil_of_removed (hL : Ledger v) (hcur : v.current = some cur) (hn : NoCreate cur.done)
    (hr : Removed cur.snapshot.machine cur.done) : leftover v.trace = [] :=
  List.eq_nil_iff_forall_not_mem.mpr fun k hk =>
    hL.deleted cur hcur hn k (hr k (hL.mem_ownKeys_snapshot hcur hk)) hk

end Ledger

theorem leftover_eq_nil_called {w : World} {q : Request} {c : Answer} {t : MachineTrace} {h : Log}
    {x : Response q} (hh : NoCreate h → leftover t = []) (hn : NoCreate (⟨q, x⟩ :: h)) :
    leftover (.called w q c :: t) = [] :=
  leftover_called_eq_nil (hn _ List.mem_cons_self)
    (hh fun y hy => hn y (List.mem_cons_of_mem _ hy))

section Ends

/-- When a run leaves nothing behind: the kill switch finds a resource that is running or without
left over objects, and so does a pending reconcile that hears of a closed schedule. -/
def tidyGuard : MachineGuard where
  move v w := Undisturbed v.world w
  start v := Killed v.world.machine → isRunning v.world.machine.phase = false →
    leftover v.trace = []
  call v q c := ∀ cur, v.current = some cur → isPending cur.snapshot.machine.phase = true →
    cur.snapshot.machine.spec.enabled = true →
    Composed cur.snapshot.machine (⟨q, (v.world.exec q c).1⟩ :: cur.done) false →
    leftover v.trace = []
  crash _ := True

def atRest (phase : Option Phase) : Bool := phase == some .inactive || phase == some .terminated

theorem atRest_iff {phase : Option Phase} :
    atRest phase = true ↔ phase = some .inactive ∨ phase = some .terminated := by
  simp [atRest]

structure Tidy (v : MachineView) : Prop where
  ledger : Ledger v
  rest : atRest v.world.machine.phase = true → leftover v.trace = []
  killed : ∀ cur, v.current = some cur → Killed cur.snapshot.machine →
    isRunning cur.snapshot.machine.phase = false → NoCreate cur.done → leftover v.trace = []
  closed : ∀ cur, v.current = some cur → isPending cur.snapshot.machine.phase = true →
    cur.snapshot.machine.spec.enabled = true → Composed cur.snapshot.machine cur.done false →
    NoCreate cur.done → leftover v.trace = []

variable {v : MachineView} {cur : Current Request Response World}

theorem not_composed_nil {r : ScheduledMachine} {active : Bool} : ¬Composed r [] active := by
  rintro ⟨verdict, hheard, _⟩
  cases hheard with
  | noKind h | noObject h | object h => cases h

theorem Tidy.eq_nil_of_moves {phase : Phase} {reason : String} (hT : Tidy v)
    (hcur : v.current = some cur) (hm : Moves cur.snapshot.machine cur.done phase reason)
    (hrest : atRest (some phase) = true) : leftover v.trace = [] := by
  cases hm with
  | terminated hk _ hs hr =>
    cases hrun : isRunning cur.snapshot.machine.phase with
    | true => exact hT.ledger.eq_nil_of_removed hcur hs.noCreate (hr hrun)
    | false => exact hT.killed cur hcur hk hrun hs.noCreate
  | closed hg hp he hc hs => exact hT.closed cur hcur hp he hc hs.noCreate
  | removed _ _ hr hs => exact hT.ledger.eq_nil_of_removed hcur hs.noCreate hr
  | _ => simp [atRest] at hrest

theorem Tidy.rest_called {q : Request} {c : Answer} (hT : Tidy v) (hcur : v.current = some cur)
    (hq : Permitted cur.snapshot.machine cur.done q)
    (hrest : atRest (machineAfter v.world q c).phase = true) :
    leftover (.called v.world q c :: v.trace) = [] := by
  have hkept : q.setsPhase = false → q.isCreate = false →
      leftover (.called v.world q c :: v.trace) = [] := by
    intro hphase hcreate
    rw [phase_machineAfter c hphase] at hrest
    exact leftover_called_eq_nil hcreate (hT.rest hrest)
  cases hq with
  | quiet hq =>
    have hs := Request.steady_of_quiet hq
    exact hkept (Request.setsPhase_of_steady hs) (Request.isCreate_of_steady hs)
  | create ha hn _ =>
    -- a create happens in a pending phase, which is not one of rest
    rw [phase_machineAfter c rfl, (hT.ledger.tracks cur hcur).phase hn] at hrest
    have hpending := ha.pending
    rcases atRest_iff.mp hrest with h | h <;> simp [h, isPending] at hpending
  | move _ hm =>
    refine leftover_called_eq_nil rfl ?_
    rw [phase_machineAfter_move] at hrest
    split at hrest
    · exact hT.eq_nil_of_moves hcur hm hrest
    · exact hT.rest hrest
  | addFinalizer | dropFinalizer | creating | elapsed | delete | disableSchedule =>
    exact hkept rfl rfl

theorem tidy_preserved : machineContract.Preserves machineSystem tidyGuard Tidy where
  move v w hT hu := by
    refine ⟨hT.ledger.moved hu, fun hrest => hT.rest ?_, hT.killed, hT.closed⟩
    rw [← hu.phase]
    exact hrest
  start v hT hidle hstart := by
    refine ⟨machineContract_binds _, hT.ledger.started, hT.rest, ?_, ?_⟩
    · rintro cur ⟨⟩ hk hrun _
      exact hstart hk hrun
    · rintro cur ⟨⟩ _ _ hc _
      exact absurd hc not_composed_nil
  call v cur q c hT hcur hq hcall := by
    refine ⟨trivial, hT.ledger.called c hcur hq, ?_, ?_, ?_⟩
    · intro hrest
      refine hT.rest_called hcur hq ?_
      rw [← exec_machine]
      exact hrest
    · rintro cur' ⟨⟩ hk hrun hn
      exact leftover_eq_nil_called (hT.killed cur hcur hk hrun) hn
    · rintro cur' ⟨⟩ hp he hc hn
      exact leftover_called_eq_nil (hn _ List.mem_cons_self) (hcall cur hcur hp he hc)
  finish v cur a hT hcur _ := by
    refine ⟨hT.ledger.idle rfl rfl, hT.rest, ?_, ?_⟩
    all_goals rintro cur' ⟨⟩
  crash v hT _ := by
    refine ⟨hT.ledger.idle rfl rfl, hT.rest, ?_, ?_⟩
    all_goals rintro cur' ⟨⟩

/-- No answer heard so far makes the schedule closed. -/
def neverClosed (r : ScheduledMachine) (h : Log) : Bool :=
  h.all fun
    | ⟨.pinnedKind _ _ _, .error _⟩ => false
    | ⟨.getProvider _ _, .ok none⟩ => false
    | ⟨.getProvider _ _, .ok (some object)⟩ =>
        composeShouldBeActive (verdictFromStatus (object.get? "status")) r.lastKnownSpotActive
    | _ => true

theorem not_composed_of_neverClosed {r : ScheduledMachine} {h : Log} (hh : neverClosed r h = true) :
    ¬Composed r h false := by
  rintro ⟨verdict, hheard, hclosed⟩
  have hall := List.all_eq_true.mp hh
  cases hheard with
  | noKind hmem => cases hall _ hmem
  | noObject hmem => cases hall _ hmem
  | object hmem =>
    have hopen : composeShouldBeActive _ _ = true := hall _ hmem
    rw [hclosed] at hopen
    cases hopen

def tidyTests : Tests tidyGuard where
  start v := !v.world.machine.spec.killSwitch || isRunning v.world.machine.phase ||
    (leftover v.trace).isEmpty
  call v q c := (leftover v.trace).isEmpty || v.current.all fun cur =>
    neverClosed cur.snapshot.machine (⟨q, (v.world.exec q c).1⟩ :: cur.done)
  start_sound v h hk hrun := by simpa [hk.killOn, hrun] using h
  call_sound v q c h cur hcur _ _ hc := by
    rcases (Bool.or_eq_true _ _).mp h with hnil | hopen
    · exact List.isEmpty_iff.mp hnil
    · rw [hcur] at hopen
      exact absurd hc (not_composed_of_neverClosed hopen)
  crash _ := true
  crash_sound _ _ := trivial

/-- A resource recorded as Inactive or Terminated has no objects left. -/
theorem nothing_left_at_rest (w : World) (es : List (Event World Answer))
    (hes : tidyGuard.Allows machineSystem (.idle w) es)
    (hrest : atRest (machineSystem.run (.idle w) es).world.machine.phase = true) :
    leftover (machineSystem.run (.idle w) es).trace = [] := by
  have hinit : Tidy ⟨w, [], none⟩ := by
    refine ⟨.initial w, fun _ => rfl, ?_, ?_⟩
    all_goals rintro cur ⟨⟩
  exact (tidy_preserved.run_idle hinit hes).rest hrest

theorem undisturbed_killSample (w : World) : Undisturbed w (killSample w) :=
  ⟨⟨rfl⟩, rfl, rfl, rfl, rfl⟩

def sampleKill : List (Event World Answer) :=
  reconcileFor 2 ++ reconcileFor 20 ++ .move (killSample sampleAdded.world) :: reconcileFor 9

theorem nothing_left_after_kill :
    leftover sampleAdded.trace ≠ [] ∧
      atRest (machineSystem.run (.idle sampleWorld) sampleKill).world.machine.phase = true ∧
      leftover (machineSystem.run (.idle sampleWorld) sampleKill).trace = [] := by
  have hrun : leftover sampleAdded.trace ≠ [] ∧
      atRest (machineSystem.run (.idle sampleWorld) sampleKill).world.machine.phase = true ∧
      tidyTests.passAll machineSystem (.idle sampleWorld) (reconcileFor 2 ++ reconcileFor 20) = true ∧
      tidyTests.passAll machineSystem (machineSystem.step sampleAdded
        (.move (killSample sampleAdded.world))) (reconcileFor 9) = true := by
    decide +kernel
  obtain ⟨hadded, hrest, hpass⟩ := hrun
  refine ⟨hadded, hrest, nothing_left_at_rest sampleWorld sampleKill ?_ hrest⟩
  exact Tests.allows_move (undisturbed_killSample sampleAdded.world) hpass

def sampleAbandoned : Config Request Response World Answer (Except ReconcilerError Action) :=
  machineSystem.run (.idle sampleWorld) (reconcileFor 2 ++ reconcileFor 11 ++ [.crash])

def sampleBootstrapKey : ObjectKey :=
  objectKey "bootstrap.cluster.x-k8s.io/v1beta1" "K0sWorkerConfig" "default" "spot"

/-- The next reconcile hears of a closed schedule and records Inactive. -/
theorem inactive_with_bootstrap_left :
    let c := machineSystem.run sampleAbandoned
      (.move (closeSample sampleAbandoned.world) :: reconcileFor 20)
    sampleWorld.machine.status = none ∧ c.world.machine.phase = some .inactive ∧
      leftover c.trace = [sampleBootstrapKey] := by
  decide +kernel

end Ends

section Deletion

def timedOut : MachineTrace → Bool
  | [] => false
  | .started _ :: _ => false
  | .called w .timerFired c :: t => (w.exec .timerFired c).1 || timedOut t
  | _ :: t => timedOut t

/-- The finalizer is taken away, cleanup did not time out, and nothing is left over. -/
def DropsClean (o : Obs Request Response World Answer (Except ReconcilerError Action))
    (t : MachineTrace) : Prop :=
  match o with
  | .called _ (.patchFinalizers fs) c =>
      finalizerScheduledMachine ∉ fs → c.applied = true → timedOut t = false → leftover t = []
  | _ => True

/-- A deletion is first handled when the resource is running or has nothing left over. -/
def deletionGuard : MachineGuard where
  move v w := Undisturbed v.world w
  start v := v.world.machine.deletionTimestamp.isSome = true →
    isRunning v.world.machine.phase = false → leftover v.trace = []
  call _ _ _ := True
  crash _ := True

structure CleanDeletion (v : MachineView) : Prop where
  ledger : Ledger v
  drops : Throughout DropsClean v.trace
  timer : ∀ cur, v.current = some cur → ⟨.timerFired, true⟩ ∈ cur.done → timedOut v.trace = true
  spared : ∀ cur, v.current = some cur → cur.snapshot.machine.deletionTimestamp.isSome = true →
    isRunning cur.snapshot.machine.phase = false → NoCreate cur.done → leftover v.trace = []

variable {v : MachineView} {cur : Current Request Response World}

theorem timedOut_called {w : World} {q : Request} {c : Answer} {t : MachineTrace}
    (ht : timedOut t = true) : timedOut (.called w q c :: t) = true := by
  cases q <;> simp [timedOut, ht]

theorem CleanDeletion.drops_called {q : Request} (c : Answer) (hC : CleanDeletion v)
    (hcur : v.current = some cur) (hq : Permitted cur.snapshot.machine cur.done q) :
    DropsClean (.called v.world q c) v.trace := by
  cases hq with
  | quiet hq => cases q <;> trivial
  | addFinalizer hf => exact fun hdrop => absurd hf hdrop
  | dropFinalizer _ hd hdone =>
    intro _ _ htimer
    rcases hdone with hfired | ⟨hs, hr⟩
    · rw [hC.timer cur hcur hfired] at htimer
      cases htimer
    · cases hrun : isRunning cur.snapshot.machine.phase with
      | true => exact hC.ledger.eq_nil_of_removed hcur hs.noCreate (hr hrun)
      | false => exact hC.spared cur hcur hd hrun hs.noCreate
  | creating | create | elapsed | delete | disableSchedule | move => trivial

theorem cleanDeletion_preserved :
    machineContract.Preserves machineSystem deletionGuard CleanDeletion where
  move v w hC hu := ⟨hC.ledger.moved hu, .cons trivial hC.drops, hC.timer, hC.spared⟩
  start v hC hidle hstart := by
    refine ⟨machineContract_binds _, hC.ledger.started, .cons trivial hC.drops, ?_, ?_⟩
    · rintro cur ⟨⟩ hmem
      cases hmem
    · rintro cur ⟨⟩ hd hrun _
      exact hstart hd hrun
  call v cur q c hC hcur hq _ := by
    refine ⟨trivial, hC.ledger.called c hcur hq, .cons (hC.drops_called c hcur hq) hC.drops, ?_, ?_⟩
    · rintro cur' ⟨⟩ hmem
      rcases List.mem_cons.mp hmem with heq | hmem
      · obtain ⟨rfl, hanswer⟩ := Sigma.mk.inj heq
        have hfired : (v.world.exec .timerFired c).1 = true := (eq_of_heq hanswer).symm
        show ((v.world.exec .timerFired c).1 || timedOut v.trace) = true
        rw [hfired]
        rfl
      · exact timedOut_called (hC.timer cur hcur hmem)
    · rintro cur' ⟨⟩ hd hrun hn
      exact leftover_eq_nil_called (hC.spared cur hcur hd hrun) hn
  finish v cur a hC hcur _ := by
    refine ⟨hC.ledger.idle rfl rfl, .cons trivial hC.drops, ?_, ?_⟩
    all_goals rintro cur' ⟨⟩
  crash v hC _ := by
    refine ⟨hC.ledger.idle rfl rfl, .cons trivial hC.drops, ?_, ?_⟩
    all_goals rintro cur' ⟨⟩

/-- A finalizer that goes away without a timeout leaves no objects behind. -/
theorem finalizer_drop_leaves_nothing (w : World) (es : List (Event World Answer))
    (hes : deletionGuard.Allows machineSystem (.idle w) es) :
    Throughout DropsClean (machineSystem.run (.idle w) es).trace := by
  have hinit : CleanDeletion ⟨w, [], none⟩ := by
    refine ⟨.initial w, .nil, ?_, ?_⟩
    all_goals rintro cur ⟨⟩
  exact (cleanDeletion_preserved.run_idle hinit hes).drops

def deletionTests : Tests deletionGuard where
  start v := v.world.machine.deletionTimestamp.isNone || isRunning v.world.machine.phase
  call _ _ _ := true
  start_sound v h hd hrun := by
    rw [hrun, Bool.or_false] at h
    rw [Option.isNone_iff_eq_none.mp h] at hd
    cases hd
  call_sound _ _ _ _ := trivial
  crash _ := true
  crash_sound _ _ := trivial

def deleteSample (w : World) : World :=
  { w with machine := { w.machine with deletionTimestamp := some (.at 0) } }

theorem undisturbed_deleteSample (w : World) : Undisturbed w (deleteSample w) :=
  ⟨⟨rfl⟩, rfl, rfl, rfl, rfl⟩

def sampleDeletion : List (Event World Answer) :=
  reconcileFor 2 ++ reconcileFor 20 ++ .move (deleteSample sampleAdded.world) :: reconcileFor 20

theorem deletion_of_active_leaves_nothing :
    (machineSystem.run (.idle sampleWorld) sampleDeletion).world.machine.finalizers = some [] ∧
      Throughout DropsClean (machineSystem.run (.idle sampleWorld) sampleDeletion).trace := by
  have hrun :
      (machineSystem.run (.idle sampleWorld) sampleDeletion).world.machine.finalizers = some [] ∧
      deletionTests.passAll machineSystem (.idle sampleWorld) (reconcileFor 2 ++ reconcileFor 20) = true ∧
      deletionTests.passAll machineSystem (machineSystem.step sampleAdded
        (.move (deleteSample sampleAdded.world))) (reconcileFor 20) = true := by
    decide +kernel
  refine ⟨hrun.1, finalizer_drop_leaves_nothing sampleWorld sampleDeletion ?_⟩
  exact Tests.allows_move (undisturbed_deleteSample sampleAdded.world) hrun.2

/-- Deleted in the pending phase, the resource lets go of its finalizer at once. -/
theorem finalizer_dropped_with_bootstrap_left :
    let c := machineSystem.run sampleAbandoned
      (.move (deleteSample sampleAbandoned.world) :: reconcileFor 20)
    c.world.machine.finalizers = some [] ∧ timedOut c.trace = false ∧
      leftover c.trace = [sampleBootstrapKey] := by
  decide +kernel

end Deletion

end FiveSpot.Machine
