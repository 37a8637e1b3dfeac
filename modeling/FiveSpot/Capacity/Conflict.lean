import FiveSpot.Capacity.Frame

/-!
# Reconciles in a host governance conflict

A reconcile that is shown a ScheduledMachine on its node withholds the active value. Nothing in the
conflict branch asks whether the owned object is there, so with no zero on record it is created.
-/

namespace FiveSpot.Capacity

set_option autoImplicit false

open Effects

/-- A conflict is reported to a reconcile that was shown no object only with zero on record. -/
def conflictGuard : CapacityGuard where
  move := fun _ _ => True
  start := fun _ => True
  call := fun v q ch => ∀ cur, v.current = some cur → objectSeen cur.done = some none →
    showsConflict cur.snapshot.capacity ⟨q, (v.world.exec q ch).1⟩ = true →
    cur.snapshot.capacity.writtenValue = some capacityInactiveValue
  crash := fun _ => True

structure Forewarned (v : CapacityView) : Prop where
  zero : ∀ cur, v.current = some cur → conflictSeen cur.snapshot.capacity cur.done = true →
    objectSeen cur.done = some none →
    cur.snapshot.capacity.writtenValue = some capacityInactiveValue

namespace Forewarned

variable {v : CapacityView}

theorem started : Forewarned v.started where
  zero := by
    rintro cur ⟨⟩ hconflict
    cases hconflict

theorem called (hv : Forewarned v) {cur : Current Request Response World} {q : Request} {ch : Answer}
    (hcur : v.current = some cur) (hq : Permitted cur.snapshot.capacity cur.done q)
    (hG : conflictGuard.call v q ch) : Forewarned (v.called capacitySystem cur q ch) where
  zero := by
    rintro cur' ⟨⟩ hconflict hobject
    cases haside : q.aside with
    | true =>
      have hgrown : History.Grown (fun q => q.aside = true) cur.done
          (⟨q, (v.world.exec q ch).1⟩ :: cur.done) := .cons (.refl _) (by exact haside) _
      exact hv.zero cur hcur (conflictSeen_grown hgrown ▸ hconflict) (objectSeen_grown hgrown ▸ hobject)
    | false =>
      cases q with
      | getObject plural ns name =>
        -- the object is asked for before the machines
        cases hq with
        | lookUp hlook => cases hlook
        | apply _ _ happlies => cases happlies
        | getObject hh =>
          have hnone : conflictSeen cur.snapshot.capacity cur.done = false :=
            (not_writable_of_looksUp hh).2.2
          exact absurd (hconflict.symm.trans hnone) (by decide)
      | listMachines ns =>
        rcases (Bool.or_eq_true _ _).mp hconflict with hshown | hbefore
        · exact hG cur hcur hobject hshown
        · exact hv.zero cur hcur hbefore hobject
      | _ => cases haside

end Forewarned

theorem forewarned_preserved :
    capacityContract.Preserves capacitySystem conflictGuard Forewarned where
  move := fun _ _ hv _ => ⟨hv.zero⟩
  start := fun v _ _ _ => ⟨capacityContract_binds v.world, .started⟩
  call := fun _ _ _ _ hv hcur hq hG => ⟨trivial, hv.called hcur hq hG⟩
  finish := fun _ _ _ _ _ _ => ⟨by rintro cur ⟨⟩⟩
  crash := fun _ _ _ => ⟨by rintro cur ⟨⟩⟩

theorem Permitted.conflict_apply {c : ScheduledCapacity} {h : Log} {plural ns name : String}
    {desired : OwnedObject} (hq : Permitted c h (.applyObject plural ns name desired))
    (hconflict : conflictSeen c h = true) :
    readI64At desired.spec c.spec.capacity.field = some capacityInactiveValue ∧
      c.writtenValue ≠ some capacityInactiveValue := by
  cases hq with
  | lookUp hlook => cases hlook
  | @apply o _ hi _ happlies =>
    obtain ⟨value, hvalue, hcarries⟩ := happlies.carries
    have hinput : (decisionInput c o).conflict = true := hi.conflict.trans hconflict
    have hzero := hvalue
    unfold decision at hzero
    rw [decide_conflict_write hinput] at hzero
    unfold writeIfChanged at hzero
    split at hzero
    · cases hzero
    · rename_i hne
      cases hzero
      exact ⟨hcarries, hne⟩

/--
In every such run a reconcile that was shown a conflict sends no apply but of zero, and none at all
when it was shown that the object is absent.
-/
theorem conflict_applies_zero_to_existing {w : World} {es : List (Event World Answer)}
    (hG : conflictGuard.Allows capacitySystem (.idle w) es) {cur : Current Request Response World}
    {desired : OwnedObject}
    (hpending : pendingApply (capacitySystem.run (.idle w) es) = some (cur, desired))
    (hconflict : conflictSeen cur.snapshot.capacity cur.done = true) :
    readI64At desired.spec cur.snapshot.capacity.spec.capacity.field = some capacityInactiveValue ∧
      objectSeen cur.done ≠ some none := by
  have hinit : Forewarned ⟨w, [], none⟩ := ⟨by rintro cur ⟨⟩⟩
  obtain ⟨hv, hgoverns⟩ := forewarned_preserved.run (c := .idle w) hinit Contract.governs_idle hG
  obtain ⟨hcurrent, plural, ns, name, k, hinflight⟩ := pendingApply_eq_some hpending
  obtain ⟨hpermitted, _⟩ := hgoverns cur _ hinflight
  obtain ⟨hzero, hne⟩ := Permitted.conflict_apply hpermitted hconflict
  exact ⟨hzero, fun habsent => hne (hv.zero cur hcurrent hconflict habsent)⟩

def sawNoObject (h : Log) : Bool :=
  match objectSeen h with
  | some none => true
  | _ => false

theorem sawNoObject_iff {h : Log} : sawNoObject h = true ↔ objectSeen h = some none := by
  unfold sawNoObject
  split
  · simp_all
  · rename_i hne
    simpa using hne

def conflictTests : Tests conflictGuard where
  start _ := true
  call v q ch := v.current.all fun cur => !sawNoObject cur.done ||
    !showsConflict cur.snapshot.capacity ⟨q, (v.world.exec q ch).1⟩
  start_sound _ _ := trivial
  call_sound v q ch h cur hcur hobject hshown := by
    rw [hcur] at h
    simp [sawNoObject_iff.mpr hobject, hshown] at h
  crash _ := true
  crash_sound _ _ := trivial

def sampleContested : List (Event World Answer) :=
  reconcileFor 17 ++ .move (contest sampleActive.world) :: reconcileFor 9

theorem conflict_zeroes_existing_object :
    ∃ cur desired, pendingApply (capacitySystem.run (.idle sampleWorld) sampleContested) =
        some (cur, desired) ∧
      conflictSeen cur.snapshot.capacity cur.done = true ∧
      readI64At desired.spec cur.snapshot.capacity.spec.capacity.field = some capacityInactiveValue ∧
      objectSeen cur.done ≠ some none := by
  have hG : conflictGuard.Allows capacitySystem (.idle sampleWorld) sampleContested := by
    refine Guard.allows_append.mpr ⟨?_, trivial, ?_⟩
    · exact Tests.allows (T := conflictTests) (by decide +kernel)
    · exact Tests.allows (T := conflictTests) (by decide +kernel)
  have hfacts : (pendingApply (capacitySystem.run (.idle sampleWorld) sampleContested)).map
      (fun r => conflictSeen r.1.snapshot.capacity r.1.done) = some true := by
    decide +kernel
  obtain ⟨⟨cur, desired⟩, hpending, hconflict⟩ := Option.map_eq_some_iff.mp hfacts
  obtain ⟨hzero, hexists⟩ := conflict_applies_zero_to_existing hG hpending hconflict
  exact ⟨cur, desired, hpending, hconflict, hzero, hexists⟩

/-- On a new resource in a conflict the object is created. -/
theorem conflict_creates_object :
    (pendingApply (capacitySystem.run (.idle (contest sampleWorld)) (reconcileFor 9))).map
        (fun r => (conflictSeen r.1.snapshot.capacity r.1.done, sawNoObject r.1.done)) =
      some (true, true) ∧
    (contest sampleWorld).object.isNone = true ∧
    (capacitySystem.run (.idle (contest sampleWorld)) (reconcileFor 17)).world.object.isSome = true := by
  refine ⟨?_, rfl, ?_⟩
  · decide +kernel
  · decide +kernel

end FiveSpot.Capacity
