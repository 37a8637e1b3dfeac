import FiveSpot.Capacity.Frame

/-!
# Convergence of the owned object

A reconcile is meant to leave the owned object as the template, the capacity field and the decided
value say, whatever happened before. It writes only when the decided value is not the one on record,
so where the record already has it the object stays as it was found.
-/

namespace FiveSpot.Capacity

set_option autoImplicit false

open Effects

/-- The object is there, and the fields managed on it are those of the resource with this value. -/
structure AsDecided (c : ScheduledCapacity) (value : Int) (object : Option Object) : Prop where
  exists_spec : ∃ o, object = some o ∧
    injectCapacityField c.spec.template c.spec.capacity.field value = .ok o.spec

def decidedValue (c : ScheduledCapacity) (o : Observation) : Int := (decisionInput c o).wanted

def justFinished : CapacityTrace → Option (Current Request Response World × Observation)
  | .finished cur (.ok (some o)) :: _ => some (cur, o)
  | _ => none

/-- While a reconcile is in flight nobody else touches the owned object. -/
def aloneGuard : CapacityGuard where
  move := fun v w => v.current = none ∨ w.object = v.world.object
  start := fun _ => True
  call := fun _ _ _ => True
  crash := fun _ => True

def Request.applies : Request → Bool
  | .applyObject _ _ _ _ => true
  | _ => false

/-- What has become of the owned object since the reconcile was started. -/
structure Tended (v : CapacityView) : Prop where
  unapplied : ∀ cur, v.current = some cur → (∀ x ∈ cur.done, x.1.applies = false) →
    v.world.object = cur.snapshot.object
  applied : ∀ cur, v.current = some cur → ∀ plural ns name desired,
    ⟨.applyObject plural ns name desired, .ok ()⟩ ∈ cur.done →
    ∃ o, v.world.object = some o ∧ o.spec = desired.spec
  finished : ∀ cur o, justFinished v.trace = some (cur, o) → o.target.writable = true →
    o.conflict = false →
    (AsDecided cur.snapshot.capacity (decidedValue cur.snapshot.capacity o) v.world.object ↔
      cur.snapshot.capacity.writtenValue ≠ some (decidedValue cur.snapshot.capacity o) ∨
        AsDecided cur.snapshot.capacity (decidedValue cur.snapshot.capacity o) cur.snapshot.object)

section Histories

variable {c : ScheduledCapacity} {o : Observation} {h : Log}

theorem applies_of_reads {q : Request} (hq : q.reads = true) : q.applies = false := by
  cases q <;> first | rfl | cases hq

theorem exec_object {w : World} {q : Request} {ch : Answer} (hq : q.applies = false) :
    (w.exec q ch).2.object = w.object := by
  cases q with
  | applyObject plural ns name desired => cases hq
  | patchStatus p =>
    rw [exec_patch]
    split <;> rfl
  | _ => rfl

theorem Permitted.applies_eq_false {q : Request} (hq : Permitted c h q) (hh : ¬ Untouched h) :
    q.applies = false := by
  cases hq with
  | lookUp hlook => exact applies_of_reads (reads_of_looksUp hlook)
  | getObject _ => rfl
  | listMachines _ _ => rfl
  | apply _ hu _ => exact absurd hu hh
  | patch _ _ _ => rfl

theorem decision_write (hwritable : o.target.writable = true) :
    (decision c o).write = writeIfChanged c.writtenValue (decidedValue c o) := by
  unfold decision decidedValue
  rw [decide_write]
  simp [decisionInput, hwritable]

theorem buildOwnedObject_spec {ns : String} {value : Int} {desired : OwnedObject}
    (h : buildOwnedObject c ns value = .ok desired) :
    injectCapacityField c.spec.template c.spec.capacity.field value = .ok desired.spec := by
  unfold buildOwnedObject at h
  split at h
  · cases h
  · rename_i spec hspec
    split at h <;> cases h
    exact hspec

end Histories

namespace Tended

variable {v : CapacityView}

theorem settle (hv : Tended v) {cur : Current Request Response World} (hcur : v.current = some cur)
    {o : Observation} {h : Log} (hwritten : Written cur.snapshot.capacity o h)
    (hresolves : Resolves cur.snapshot.capacity h o.target)
    (hh : History.Grown (fun q => q.applies = false) h cur.done)
    (hwritable : o.target.writable = true) :
    AsDecided cur.snapshot.capacity (decidedValue cur.snapshot.capacity o) v.world.object ↔
      cur.snapshot.capacity.writtenValue ≠ some (decidedValue cur.snapshot.capacity o) ∨
        AsDecided cur.snapshot.capacity (decidedValue cur.snapshot.capacity o) cur.snapshot.object := by
  cases hwritten with
  | nothing hnone hu =>
    have hrecorded : cur.snapshot.capacity.writtenValue =
        some (decidedValue cur.snapshot.capacity o) := by
      rw [decision_write hwritable] at hnone
      unfold writeIfChanged at hnone
      split at hnone
      · assumption
      · cases hnone
    have hsame : v.world.object = cur.snapshot.object :=
      hv.unapplied cur hcur (hh.forall fun x hx => applies_of_reads (hu x hx))
    rw [hsame]
    exact ⟨.inr, fun hor => hor.resolve_left fun hne => hne hrecorded⟩
  | unsent _ hnone _ =>
    have hsome := hresolves.apiResource
    rw [hnone, hwritable] at hsome
    cases hsome
  | applied happlies _ hgrown =>
    have hmem := hh.mem (hgrown.mem List.mem_cons_self)
    obtain ⟨object, hobject, hspec⟩ := hv.applied cur hcur _ _ _ _ hmem
    cases happlies with
    | @mk _ _ value _ _ hwrite _ hbuild =>
      rw [decision_write hwritable] at hwrite
      unfold writeIfChanged at hwrite
      split at hwrite
      · cases hwrite
      · rename_i hne
        cases hwrite
        refine ⟨fun _ => .inl hne, fun _ => ⟨object, hobject, ?_⟩⟩
        rw [hspec]
        exact buildOwnedObject_spec hbuild

theorem moved {w : World} (hv : Tended v) (hw : v.current = none ∨ w.object = v.world.object) :
    Tended (v.moved w) where
  unapplied := by
    intro cur hcur hh
    rcases hw with hidle | hsame
    · cases hidle.symm.trans hcur
    · exact hsame.trans (hv.unapplied cur hcur hh)
  applied := by
    intro cur hcur plural ns name desired hmem
    rcases hw with hidle | hsame
    · cases hidle.symm.trans hcur
    · obtain ⟨o, ho, hspec⟩ := hv.applied cur hcur plural ns name desired hmem
      exact ⟨o, hsame.trans ho, hspec⟩
  finished := by
    rintro cur o ⟨⟩

theorem started : Tended v.started where
  unapplied := by
    intro cur hcur _
    cases hcur
    rfl
  applied := by
    intro cur hcur plural ns name desired hmem
    cases hcur
    cases hmem
  finished := by
    rintro cur o ⟨⟩

theorem called (hv : Tended v) {cur : Current Request Response World} {q : Request} {ch : Answer}
    (hcur : v.current = some cur) (hq : Permitted cur.snapshot.capacity cur.done q) :
    Tended (v.called capacitySystem cur q ch) where
  unapplied := by
    intro cur' hcur' hh
    cases hcur'
    change (v.world.exec q ch).2.object = _
    rw [exec_object (hh _ List.mem_cons_self)]
    exact hv.unapplied cur hcur fun x hx => hh x (List.mem_cons_of_mem _ hx)
  applied := by
    intro cur' hcur' plural ns name desired hmem
    cases hcur'
    rcases List.mem_cons.mp hmem with heq | hmem
    · obtain ⟨rfl, hr⟩ := Sigma.mk.inj heq
      rcases ch with _ | ⟨e, applied⟩
      · exact ⟨_, rfl, rfl⟩
      · cases applied <;> cases eq_of_heq hr
    · obtain ⟨o, ho, hspec⟩ := hv.applied cur hcur plural ns name desired hmem
      refine ⟨o, ?_, hspec⟩
      have hquiet : q.applies = false :=
        hq.applies_eq_false fun hu => Bool.noConfusion (hu _ hmem)
      change (v.world.exec q ch).2.object = _
      rw [exec_object hquiet, ho]
  finished := by
    rintro cur o ⟨⟩

theorem ended (hv : Tended v) {cur : Current Request Response World}
    {a : Except CapacityError (Option Observation)} (hcur : v.current = some cur)
    (ha : Returns cur.snapshot.capacity a cur.done) : Tended (v.finished cur a) := by
  refine ⟨?_, ?_, fun cur' o hjust hwritable _ => ?_⟩
  · rintro cur' ⟨⟩
  · rintro cur' ⟨⟩
  generalize hdone : cur.done = h at ha
  cases ha with
  | kept hi hw _ =>
    cases hjust
    exact hv.settle hcur hw hi.target (hdone ▸ .refl _) hwritable
  | patched hi hw =>
    cases hjust
    refine hv.settle hcur hw hi.target ?_ hwritable
    rw [hdone]
    exact .cons (.refl _) (by rfl) _
  | standby _ => cases hjust
  | failed _ => cases hjust
  | notApplied _ => cases hjust
  | notPatched => cases hjust

theorem restarted : Tended (v.restarted capacitySystem) where
  unapplied := by
    rintro cur ⟨⟩
  applied := by
    rintro cur ⟨⟩
  finished := by
    rintro cur o ⟨⟩

end Tended

theorem tended_preserved : capacityContract.Preserves capacitySystem aloneGuard Tended where
  move := fun _ _ hv hw => hv.moved hw
  start := fun v _ _ _ => ⟨capacityContract_binds v.world, .started⟩
  call := fun _ _ _ _ hv hcur hq _ => ⟨trivial, hv.called hcur hq⟩
  finish := fun _ _ _ hv hcur ha => hv.ended hcur ha
  crash := fun _ _ _ => .restarted

/--
After a reconcile that ended well with a writable target and no conflict, the owned object is as
decided exactly when the decided value was not on record or the object was so before.
-/
theorem object_as_decided_iff {w : World} {es : List (Event World Answer)}
    (hG : aloneGuard.Allows capacitySystem (.idle w) es) {cur : Current Request Response World}
    {o : Observation} (hjust : justFinished (capacitySystem.run (.idle w) es).trace = some (cur, o))
    (hwritable : o.target.writable = true) (hconflict : o.conflict = false) :
    AsDecided cur.snapshot.capacity (decidedValue cur.snapshot.capacity o)
        (capacitySystem.run (.idle w) es).world.object ↔
      cur.snapshot.capacity.writtenValue ≠ some (decidedValue cur.snapshot.capacity o) ∨
        AsDecided cur.snapshot.capacity (decidedValue cur.snapshot.capacity o) cur.snapshot.object := by
  have hinit : Tended ⟨w, [], none⟩ := by
    refine ⟨?_, ?_, ?_⟩
    · rintro cur ⟨⟩
    · rintro cur ⟨⟩
    · rintro cur o ⟨⟩
  exact (tended_preserved.run_idle hinit hG).finished cur o hjust hwritable hconflict

def aloneTests : Tests aloneGuard where
  start _ := true
  call _ _ _ := true
  start_sound _ _ := trivial
  call_sound _ _ _ _ := trivial
  crash _ := true
  crash_sound _ _ := trivial

def endFacts (r : Current Request Response World × Observation) : Option Int × Int × Bool × Bool :=
  (r.1.snapshot.capacity.writtenValue, decidedValue r.1.snapshot.capacity r.2, r.2.target.writable,
    r.2.conflict)

theorem first_reconcile_converges :
    ∃ cur o, justFinished sampleActive.trace = some (cur, o) ∧ o.target.writable = true ∧
      o.conflict = false ∧ decidedValue cur.snapshot.capacity o = 10 ∧
      AsDecided cur.snapshot.capacity 10 sampleActive.world.object := by
  have hfacts : (justFinished sampleActive.trace).map endFacts = some (none, 10, true, false) := by
    decide +kernel
  obtain ⟨⟨cur, o⟩, hjust, hends⟩ := Option.map_eq_some_iff.mp hfacts
  obtain ⟨hwritten, hends⟩ := Prod.mk.inj hends
  obtain ⟨hvalue, hends⟩ := Prod.mk.inj hends
  obtain ⟨hwritable, hconflict⟩ := Prod.mk.inj hends
  have hG : aloneGuard.Allows capacitySystem (.idle sampleWorld) (reconcileFor 17) :=
    Tests.allows (T := aloneTests) (by decide +kernel)
  have hdecided := (object_as_decided_iff hG hjust hwritable hconflict).mpr (.inl (by simp [hwritten]))
  refine ⟨cur, o, hjust, hwritable, hconflict, hvalue, ?_⟩
  rw [hvalue] at hdecided
  exact hdecided

def deleteObject (w : World) : World := { w with object := none }

/-- The next reconcile ends well, decides on ten, and leaves the object away. -/
theorem deleted_object_stays_away :
    ∃ cur o, justFinished (capacitySystem.run sampleActive
        (.move (deleteObject sampleActive.world) :: reconcileFor 17)).trace = some (cur, o) ∧
      o.target.writable = true ∧ o.conflict = false ∧
      ¬ AsDecided cur.snapshot.capacity (decidedValue cur.snapshot.capacity o)
        (capacitySystem.run sampleActive
          (.move (deleteObject sampleActive.world) :: reconcileFor 17)).world.object := by
  have hfacts : (justFinished (capacitySystem.run sampleActive
      (.move (deleteObject sampleActive.world) :: reconcileFor 17)).trace).map endFacts =
      some (some 10, 10, true, false) := by
    decide +kernel
  have hnone : (capacitySystem.run sampleActive
      (.move (deleteObject sampleActive.world) :: reconcileFor 17)).world.object.isNone = true := by
    decide +kernel
  obtain ⟨⟨cur, o⟩, hjust, hends⟩ := Option.map_eq_some_iff.mp hfacts
  obtain ⟨_, hends⟩ := Prod.mk.inj hends
  obtain ⟨_, hends⟩ := Prod.mk.inj hends
  obtain ⟨hwritable, hconflict⟩ := Prod.mk.inj hends
  refine ⟨cur, o, hjust, hwritable, hconflict, ?_⟩
  rintro ⟨object, hobject, _⟩
  rw [hobject] at hnone
  cases hnone

end FiveSpot.Capacity
