import FiveSpot.Capacity.Frame

/-!
# What is ever sent to the owned object

Every value sent is zero or the declared one, the declared one only while nothing stands against it,
and never a value that is on record. The record follows a reconcile that gives the slice back if the
reconcile completes.
-/

namespace FiveSpot.Capacity

set_option autoImplicit false

open Effects

structure Conceded (c : ScheduledCapacity) (h : Log) : Prop where
  sole : conflictSeen c h = false
  writable : foundWritable c h = true
  alive : c.spec.killSwitch = false
  enabled : c.spec.enabled = true
  composed : ∃ verdict, Heard c h verdict ∧ composeShouldBeActive verdict c.lastKnownActive = true

/-- An apply about to be sent by a reconcile, with `recorded` as the written value on record. -/
structure SafeToSend (recorded : Option Int) (c : ScheduledCapacity) (h : Log)
    (desired : OwnedObject) (value : Int) : Prop where
  carries : readI64At desired.spec c.spec.capacity.field = some value
  declared : value = capacityInactiveValue ∨ value = c.spec.capacity.activeValue
  conceded : value ≠ capacityInactiveValue → Conceded c h
  unrecorded : recorded ≠ some value

/-- The status is the controller's own; calls may fail and the process may end at any time. -/
def ownStatusGuard : CapacityGuard where
  move := StatusKept
  start := fun _ => True
  call := fun _ _ _ => True
  crash := fun _ => True

/-- The reconcile that has just come to its end after a decision. -/
def justDecided : CapacityTrace → Option (Current Request Response World × Observation)
  | .finished cur (.ok (some o)) :: _ => some (cur, o)
  | _ => none

/-- A reconcile that decided on something else than Active and found its target writable. -/
structure GivesBack (c : ScheduledCapacity) (h : Log) (o : Observation) : Prop where
  phase : (decision c o).phase ≠ .active
  writable : foundWritable c h = true

/-- What an accepted status patch says is stored, and a slice given back is recorded as such. -/
structure Recording (v : CapacityView) : Prop where
  abreast : Abreast v
  patched : ∀ cur, v.current = some cur → ∀ p, ⟨.patchStatus p, .ok ()⟩ ∈ cur.done →
    ∃ old, v.world.capacity.status = some (p.apply old)
  zeroed : ∀ cur o, justDecided v.trace = some (cur, o) →
    GivesBack cur.snapshot.capacity cur.done o →
    v.world.capacity.writtenValue = some capacityInactiveValue

section Decision

variable {c : ScheduledCapacity} {h : Log} {o : Observation} {value : Int}

theorem write_eq_some (hwrite : (decision c o).write = some value) :
    value = (decisionInput c o).wanted := by
  unfold decision at hwrite
  rw [decide_write] at hwrite
  split at hwrite
  · unfold writeIfChanged at hwrite
    split at hwrite <;> cases hwrite
    rfl
  · cases hwrite

theorem conceded_of_concedes (hi : Informed c h o) (hc : (decisionInput c o).concedes = true) :
    Conceded c h := by
  simp only [CapacityDecisionInput.concedes, Bool.and_eq_true, Bool.not_eq_true',
    CapacityDecisionInput.shouldBeActive] at hc
  obtain ⟨⟨⟨hconflict, hresolved⟩, halive⟩, henabled, hcomposed⟩ := hc
  exact ⟨hi.conflict.symm.trans hconflict, hi.target.writable.symm.trans hresolved, halive, henabled,
    o.verdict, hi.verdict, hcomposed⟩

theorem Applies.safe {plural ns name : String} {desired : OwnedObject} {recorded : Option Int}
    (ha : Applies c o (.applyObject plural ns name desired)) (hi : Informed c h o)
    (hrecorded : c.writtenValue = recorded) : ∃ value, SafeToSend recorded c h desired value := by
  obtain ⟨value, hwrite, hcarries⟩ := ha.carries
  have hwanted := write_eq_some hwrite
  have hunrecorded := write_ne_writtenValue hwrite
  refine ⟨value, hcarries, ?_, fun hne => conceded_of_concedes hi ?_, hrecorded ▸ hunrecorded⟩
  · rw [hwanted]
    unfold CapacityDecisionInput.wanted
    split
    · exact Or.inr rfl
    · exact Or.inl rfl
  · cases hconcedes : (decisionInput c o).concedes with
    | true => rfl
    | false =>
      refine absurd hwanted fun h => hne ?_
      rw [h]
      simp [CapacityDecisionInput.wanted, hconcedes]

theorem GivesBack.recordedValue (hg : GivesBack c h o) (hi : Informed c h o) :
    recordedValue c o = some capacityInactiveValue := by
  have hconcedes : (decisionInput c o).concedes = false := by
    cases hc : (decisionInput c o).concedes with
    | false => rfl
    | true => exact absurd (decide_phase_active.mpr hc) hg.phase
  have hresolved : (decisionInput c o).targetResolved = true := hi.target.writable.trans hg.writable
  have hwanted : (decisionInput c o).wanted = capacityInactiveValue := by
    simp [CapacityDecisionInput.wanted, hconcedes]
  have hwrite : (decision c o).write = writeIfChanged c.writtenValue capacityInactiveValue := by
    unfold decision
    rw [decide_write, hresolved, Bool.or_true, if_pos rfl, hwanted]
    rfl
  unfold Capacity.recordedValue
  rw [hwrite]
  unfold writeIfChanged
  split
  · assumption
  · rfl

end Decision

theorem writtenValue_of_statusPatch {c c' : ScheduledCapacity} {ns : String} {o : Observation}
    {conditions : List Condition} {old : Option ScheduledCapacityStatus}
    (h : c'.status = some ((statusPatch c ns o conditions).apply old)) :
    c'.writtenValue = recordedValue c o := by
  unfold ScheduledCapacity.writtenValue
  rw [h]
  exact buildStatusValue_writtenValue _ _ _ _ _ _

namespace Recording

variable {v : CapacityView} {cur : Current Request Response World}

theorem moved {w : World} (hv : Recording v) (hw : StatusKept v w) : Recording (v.moved w) where
  abreast := hv.abreast.moved hw
  patched cur hcur p hmem := by
    obtain ⟨old, hold⟩ := hv.patched cur hcur p hmem
    exact ⟨old, hw.trans hold⟩
  zeroed _ _ hdecided := by cases hdecided

theorem started : Recording v.started where
  abreast := .started
  patched := by
    rintro cur ⟨⟩ p hmem
    cases hmem
  zeroed _ _ hdecided := by cases hdecided

theorem called {q : Request} {ch : Answer} (hv : Recording v) (hcur : v.current = some cur)
    (hq : Permitted cur.snapshot.capacity cur.done q) :
    Recording (v.called capacitySystem cur q ch) where
  abreast := hv.abreast.called hcur
  patched := by
    rintro cur' ⟨⟩ p hmem
    rcases List.mem_cons.mp hmem with heq | hmem
    · obtain ⟨rfl, hanswer⟩ := Sigma.mk.inj heq
      obtain ⟨rfl, _⟩ := writeAnswer_fst_eq_ok (eq_of_heq hanswer).symm
      exact ⟨v.world.capacity.status, rfl⟩
    · obtain ⟨old, hold⟩ := hv.patched cur hcur p hmem
      exact ⟨old, (status_of_patched hq hmem).trans hold⟩
  zeroed _ _ hdecided := by cases hdecided

theorem finished {a : Except CapacityError (Option Observation)} (hv : Recording v)
    (hcur : v.current = some cur) (ha : Returns cur.snapshot.capacity a cur.done) :
    Recording (v.finished cur a) where
  abreast := .finished
  patched cur' hcur' := by cases hcur'
  zeroed := by
    intro cur' o hdecided hgives
    change v.world.capacity.writtenValue = _
    obtain ⟨rfl, rfl⟩ : a = .ok (some o) ∧ cur = cur' := by
      rcases a with e | _ | o'
      · cases hdecided
      · cases hdecided
      · cases hdecided
        exact ⟨rfl, rfl⟩
    generalize hdone : cur.done = h at ha
    cases ha with
    | kept hi hw hstatus =>
      subst hdone
      have hworld := (hv.abreast cur hcur hw.unpatched).symm.trans hstatus
      rw [writtenValue_of_statusPatch hworld]
      exact hgives.recordedValue hi
    | @patched h' _ ns conditions hi _ =>
      obtain ⟨old, hold⟩ := hv.patched cur hcur _ (hdone ▸ List.mem_cons_self)
      rw [writtenValue_of_statusPatch hold]
      rw [hdone] at hgives
      refine hgives.recordedValue (hi.grown ?_)
      exact .cons (.refl h') (by rfl) _

theorem restarted : Recording (v.restarted capacitySystem) where
  abreast := .restarted
  patched cur' hcur' := by cases hcur'
  zeroed _ _ hdecided := by cases hdecided

end Recording

theorem recording_preserved :
    capacityContract.Preserves capacitySystem ownStatusGuard Recording where
  move _ _ hv hw := hv.moved hw
  start v _ _ _ := ⟨capacityContract_binds v.world, .started⟩
  call _ _ _ _ hv hcur hq _ := ⟨trivial, hv.called hcur hq⟩
  finish _ _ _ hv hcur ha := hv.finished hcur ha
  crash _ _ _ := .restarted

/--
In every run in which the status is the controller's own: an apply about to be sent is safe, and
after a reconcile that gives the slice back and completes, zero is on record.
-/
theorem sends_only_safe_values (w : World) (es : List (Event World Answer))
    (hes : ownStatusGuard.Allows capacitySystem (.idle w) es) :
    let s := capacitySystem.run (.idle w) es
    (∀ cur desired, pendingApply s = some (cur, desired) →
      ∃ value, SafeToSend s.world.capacity.writtenValue cur.snapshot.capacity cur.done desired value) ∧
    ∀ cur o, justDecided s.trace = some (cur, o) →
      GivesBack cur.snapshot.capacity cur.done o →
      s.world.capacity.writtenValue = some capacityInactiveValue := by
  intro s
  have hinit : Recording ⟨w, [], none⟩ :=
    ⟨fun cur h => (by cases h), fun cur h => (by cases h), fun _ _ h => by cases h⟩
  obtain ⟨hv, hgoverns⟩ :=
    recording_preserved.run (c := .idle w) hinit Contract.governs_idle hes
  refine ⟨fun cur desired hpending => ?_, hv.zeroed⟩
  obtain ⟨hcurrent, plural, ns, name, k, hinflight⟩ := pendingApply_eq_some hpending
  obtain ⟨hpermitted, _⟩ := hgoverns cur _ hinflight
  cases hpermitted with
  | lookUp hlook => cases hlook
  | apply hi hu happlies =>
    refine happlies.safe hi ?_
    unfold ScheduledCapacity.writtenValue
    rw [hv.abreast cur hcurrent hu.unpatched]
    rfl

section Runs

def ownStatusTests : Tests ownStatusGuard where
  start _ := true
  call _ _ _ := true
  start_sound _ _ := trivial
  call_sound _ _ _ _ := trivial
  crash _ := true
  crash_sound _ _ := trivial

theorem admits_closing (c : CapacityConfig) (active : Bool) :
    ownStatusGuard.Admits c (.move (setProvider active c.world)) := rfl

def sampleClosing : List (Event World Answer) :=
  reconcileFor 17 ++ .move (setProvider false sampleActive.world) :: reconcileFor 9

def sampleClosed : List (Event World Answer) :=
  reconcileFor 17 ++ .move (setProvider false sampleActive.world) :: reconcileFor 17

def givenBack (r : Current Request Response World × Observation) : Bool :=
  Decidable.decide ((decision r.1.snapshot.capacity r.2).phase ≠ .active) &&
    foundWritable r.1.snapshot.capacity r.1.done

theorem givesBack_of_test {r : Current Request Response World × Observation}
    (h : givenBack r = true) : GivesBack r.1.snapshot.capacity r.1.done r.2 := by
  obtain ⟨hphase, hwritable⟩ := (Bool.and_eq_true _ _).mp h
  exact ⟨of_decide_eq_true hphase, hwritable⟩

theorem closing_sends_and_records_zero :
    (∃ cur desired value,
      pendingApply (capacitySystem.run (.idle sampleWorld) sampleClosing) = some (cur, desired) ∧
      SafeToSend (capacitySystem.run (.idle sampleWorld) sampleClosing).world.capacity.writtenValue
        cur.snapshot.capacity cur.done desired value) ∧
    ∃ cur o, justDecided (capacitySystem.run (.idle sampleWorld) sampleClosed).trace = some (cur, o) ∧
      GivesBack cur.snapshot.capacity cur.done o ∧
      (capacitySystem.run (.idle sampleWorld) sampleClosed).world.capacity.writtenValue =
        some capacityInactiveValue := by
  have hpass : ownStatusTests.passAll capacitySystem (.idle sampleWorld) (reconcileFor 17) = true ∧
      ownStatusTests.passAll capacitySystem
        (capacitySystem.step sampleActive (.move (setProvider false sampleActive.world)))
        (reconcileFor 17) = true := by
    decide +kernel
  constructor
  · have hrun : (pendingApply (capacitySystem.run (.idle sampleWorld) sampleClosing)).isSome = true ∧
        ownStatusTests.passAll capacitySystem
          (capacitySystem.step sampleActive (.move (setProvider false sampleActive.world)))
          (reconcileFor 9) = true := by
      decide +kernel
    obtain ⟨hsome, hclosing⟩ := hrun
    have hG : ownStatusGuard.Allows capacitySystem (.idle sampleWorld) sampleClosing :=
      Tests.allows_move (admits_closing sampleActive false) ⟨hpass.1, hclosing⟩
    obtain ⟨⟨cur, desired⟩, hpending⟩ := Option.isSome_iff_exists.mp hsome
    obtain ⟨value, hsafe⟩ :=
      (sends_only_safe_values sampleWorld sampleClosing hG).1 cur desired hpending
    exact ⟨cur, desired, value, hpending, hsafe⟩
  · have hG : ownStatusGuard.Allows capacitySystem (.idle sampleWorld) sampleClosed :=
      Tests.allows_move (admits_closing sampleActive false) hpass
    have hgiven : (justDecided (capacitySystem.run (.idle sampleWorld) sampleClosed).trace).map
        givenBack = some true := by
      decide +kernel
    obtain ⟨⟨cur, o⟩, hdecided, htest⟩ := Option.map_eq_some_iff.mp hgiven
    have hgives := givesBack_of_test htest
    exact ⟨cur, o, hdecided, hgives,
      (sends_only_safe_values sampleWorld sampleClosed hG).2 cur o hdecided hgives⟩

def refusedPatch : CapacityTrace → Option (Phase × Option Int)
  | .finished _ (.error _) :: .called w (.patchStatus p) (.fail _ false) :: _ =>
      some (p.phase, p.writtenValue.apply w.capacity.writtenValue)
  | _ => none

def appliesSucceed (t : CapacityTrace) : Bool :=
  everywhere (fun o _ =>
    match o with
    | .called _ (.applyObject _ _ _ _) .ok => true
    | .called _ (.applyObject _ _ _ _) _ => false
    | _ => true) t

/-- Every apply succeeds, but the status patch that would record the zero is refused. -/
theorem refused_patch_leaves_record :
    let s := capacitySystem.run sampleActive (.move (setProvider false sampleActive.world) ::
      (reconcileFor 16 ++ [.next (.fail (.other "unavailable") false)]))
    s.inflight.isNone = true ∧ appliesSucceed s.trace = true ∧
      (s.world.object.bind fun o => readI64At o.spec "warmReplicas") = some capacityInactiveValue ∧
      refusedPatch s.trace = some (.handingBack, some capacityInactiveValue) ∧
      s.world.capacity.writtenValue = some 10 := by
  decide +kernel

end Runs

end FiveSpot.Capacity
