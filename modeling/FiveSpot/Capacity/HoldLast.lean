import Mathlib.Data.List.Chain
import FiveSpot.Capacity.Frame

/-!
# Holding the last known state

While the provider cannot be resolved, a reconcile decides by the value in `status.spotSchedule`. That
value is what the reconcile before it stored, and an unresolved verdict is stored as no value at all:
the last known state is held for one reconcile and then lost.
-/

namespace FiveSpot.Capacity

set_option autoImplicit false

open Effects

/-- The reconciles of a trace that decided, each with the resource it read, the latest first. -/
def decided : CapacityTrace → List (ScheduledCapacity × Observation)
  | [] => []
  | .finished cur (.ok (some o)) :: t => (cur.snapshot.capacity, o) :: decided t
  | _ :: t => decided t

/-- The resource remembers the verdict of the latest of these reconciles. -/
def Heeds (c : ScheduledCapacity) (rounds : List (ScheduledCapacity × Observation)) : Prop :=
  ∀ r ∈ rounds.head?, c.lastKnownActive = r.2.verdict.isActive?

/-- The later reconcile read the status the earlier one left. -/
def Follows (later earlier : ScheduledCapacity × Observation) : Prop :=
  later.1.lastKnownActive = earlier.2.verdict.isActive?

/-- The status is the controller's own, and every status patch is applied and answered. -/
def holdGuard : CapacityGuard where
  move := StatusKept
  start := fun _ => True
  call := fun _ q ch => q.patches = true → ch = .ok
  crash := fun v => ∀ cur, v.current = some cur → Unpatched cur.done

/-- Each reconcile was started on what the one before it left behind. -/
structure Linked (v : CapacityView) : Prop where
  chain : (decided v.trace).IsChain Follows
  rest : v.current = none → Heeds v.world.capacity (decided v.trace)
  inFlight : ∀ cur, v.current = some cur → Heeds cur.snapshot.capacity (decided v.trace)
  abreast : Abreast v
  patched : ∀ cur, v.current = some cur → ∀ p r, ⟨.patchStatus p, r⟩ ∈ cur.done →
    r = .ok () ∧ ∃ old, v.world.capacity.status = some (p.apply old)

theorem Heeds.congr {c c' : ScheduledCapacity} {rounds : List (ScheduledCapacity × Observation)}
    (h : Heeds c rounds) (hstatus : c'.status = c.status) : Heeds c' rounds := by
  intro r hr
  rw [← h r hr]
  unfold ScheduledCapacity.lastKnownActive ScheduledCapacity.spotSchedule
  rw [hstatus]

theorem lastKnownActive_of_statusPatch {c c' : ScheduledCapacity} {ns : String} {o : Observation}
    {conditions : List Condition} {old : Option ScheduledCapacityStatus}
    (h : c'.status = some ((statusPatch c ns o conditions).apply old)) :
    c'.lastKnownActive = o.verdict.isActive? := by
  unfold ScheduledCapacity.lastKnownActive ScheduledCapacity.spotSchedule
  rw [h]
  exact buildStatusValue_active _ _ _ _ _ _

namespace Linked

variable {v : CapacityView}

theorem status_of_unpatched (hv : Linked v) {cur : Current Request Response World}
    (hcur : v.current = some cur) (hun : Unpatched cur.done) :
    Heeds v.world.capacity (decided v.trace) :=
  (hv.inFlight cur hcur).congr (hv.abreast cur hcur hun).symm

theorem moved {w : World} (hv : Linked v) (hw : StatusKept v w) : Linked (v.moved w) where
  chain := hv.chain
  rest := fun hcur => (hv.rest hcur).congr hw
  inFlight := hv.inFlight
  abreast := hv.abreast.moved hw
  patched := by
    intro cur hcur p r hmem
    obtain ⟨hr, old, hold⟩ := hv.patched cur hcur p r hmem
    exact ⟨hr, old, hw.trans hold⟩

theorem started (hv : Linked v) (hidle : v.current = none) : Linked v.started where
  chain := hv.chain
  rest := by
    intro hcur
    cases hcur
  inFlight := by
    intro cur hcur
    cases hcur
    exact hv.rest hidle
  abreast := .started
  patched := by
    intro cur hcur p r hmem
    cases hcur
    cases hmem

theorem called (hv : Linked v) {cur : Current Request Response World} {q : Request} {ch : Answer}
    (hcur : v.current = some cur) (hq : Permitted cur.snapshot.capacity cur.done q)
    (hch : q.patches = true → ch = .ok) : Linked (v.called capacitySystem cur q ch) where
  chain := hv.chain
  rest := by
    intro hnone
    cases hnone
  inFlight := by
    intro cur' hcur'
    cases hcur'
    exact hv.inFlight cur hcur
  abreast := hv.abreast.called hcur
  patched := by
    intro cur' hcur' p r hmem
    cases hcur'
    rcases List.mem_cons.mp hmem with heq | hmem
    · cases heq
      cases hch rfl
      exact ⟨rfl, v.world.capacity.status, rfl⟩
    · obtain ⟨hr, old, hold⟩ := hv.patched cur hcur p r hmem
      exact ⟨hr, old, (status_of_patched hq hmem).trans hold⟩

theorem finished (hv : Linked v) {cur : Current Request Response World}
    {a : Except CapacityError (Option Observation)} (hcur : v.current = some cur)
    (ha : Returns cur.snapshot.capacity a cur.done) : Linked (v.finished cur a) := by
  have hheeds := hv.inFlight cur hcur
  -- a reconcile that decided is linked to the one before and remembered by the status
  have hdecided : ∀ o, a = .ok (some o) → v.world.capacity.lastKnownActive = o.verdict.isActive? →
      Linked (v.finished cur a) := by
    rintro o rfl hlast
    refine ⟨?_, ?_, ?_, .finished, ?_⟩
    · exact List.isChain_cons.mpr ⟨fun r hr => hheeds r hr, hv.chain⟩
    · intro _ r hr
      cases hr
      exact hlast
    · exact fun cur' hcur' => by cases hcur'
    · exact fun cur' hcur' => by cases hcur'
  -- any other reconcile has left the status alone
  have hothers : decided (v.finished cur a).trace = decided v.trace → Unpatched cur.done →
      Linked (v.finished cur a) := by
    intro hsame hun
    refine ⟨?_, ?_, ?_, .finished, ?_⟩
    · rw [hsame]
      exact hv.chain
    · intro _
      rw [hsame]
      exact hv.status_of_unpatched hcur hun
    · exact fun cur' hcur' => by cases hcur'
    · exact fun cur' hcur' => by cases hcur'
  generalize hdone : cur.done = h at ha
  cases ha with
  | standby hu =>
    subst hdone
    exact hothers rfl hu.unpatched
  | kept _ hw hstatus =>
    subst hdone
    have hworld := (hv.abreast cur hcur hw.unpatched).symm.trans hstatus
    exact hdecided _ rfl (lastKnownActive_of_statusPatch hworld)
  | patched _ _ =>
    obtain ⟨_, old, hold⟩ := hv.patched cur hcur _ _ (hdone ▸ List.mem_cons_self)
    exact hdecided _ rfl (lastKnownActive_of_statusPatch hold)
  | failed hu =>
    subst hdone
    exact hothers rfl hu.unpatched
  | notApplied hu =>
    refine hothers rfl fun x hx => ?_
    rw [hdone] at hx
    rcases List.mem_cons.mp hx with rfl | hx
    · rfl
    · exact hu.unpatched x hx
  | notPatched =>
    obtain ⟨hok, _⟩ := hv.patched cur hcur _ _ (hdone ▸ List.mem_cons_self)
    cases hok

theorem restarted (hv : Linked v)
    (hun : ∀ cur, v.current = some cur → Unpatched cur.done) :
    Linked (v.restarted capacitySystem) where
  chain := hv.chain
  rest := by
    intro _
    change Heeds v.world.capacity (decided v.trace)
    cases hcur : v.current with
    | none => exact hv.rest hcur
    | some cur => exact hv.status_of_unpatched hcur (hun cur hcur)
  inFlight := fun cur' hcur' => by cases hcur'
  abreast := .restarted
  patched := fun cur' hcur' => by cases hcur'

end Linked

theorem linked_preserved : capacityContract.Preserves capacitySystem holdGuard Linked where
  move := fun _ _ hv hw => hv.moved hw
  start := fun v hv hidle _ => ⟨capacityContract_binds v.world, hv.started hidle⟩
  call := fun _ _ _ _ hv hcur hq hch => ⟨trivial, hv.called hcur hq hch⟩
  finish := fun _ _ _ hv hcur ha => hv.finished hcur ha
  crash := fun _ hv hun => hv.restarted hun

theorem linked_idle (w : World) : Linked ⟨w, [], none⟩ where
  chain := .nil
  rest := fun _ r hr => by cases hr
  inFlight := fun cur hcur => by cases hcur
  abreast := fun cur hcur => by cases hcur
  patched := fun cur hcur => by cases hcur

theorem decided_isChain {w : World} {es : List (Event World Answer)}
    (hG : holdGuard.Allows capacitySystem (.idle w) es) :
    (decided (capacitySystem.run (.idle w) es).trace).IsChain Follows :=
  (linked_preserved.run_idle (linked_idle w) hG).chain

/-- The premises of the hold: the target resolved, no conflict, enabled and not killed. -/
structure Governed (r : ScheduledCapacity × Observation) : Prop where
  resolved : r.2.target.writable = true
  undisputed : r.2.conflict = false
  enabled : r.1.spec.enabled = true
  notKilled : r.1.spec.killSwitch = false
  positive : 1 ≤ r.1.spec.capacity.activeValue

section Hold

variable {r : ScheduledCapacity × Observation}

theorem concedes_of_unresolved (hr : Governed r) (hun : r.2.verdict.isActive? = none) :
    (decisionInput r.1 r.2).concedes = r.1.lastKnownActive.getD false := by
  simp [CapacityDecisionInput.concedes, CapacityDecisionInput.shouldBeActive, decisionInput,
    composeShouldBeActive_eq, hr.resolved, hr.undisputed, hr.enabled, hr.notKilled, hun]

theorem held_of_remembered (hr : Governed r) (hun : r.2.verdict.isActive? = none)
    (hlast : r.1.lastKnownActive = some true) :
    (decision r.1 r.2).phase = .active ∧ (decision r.1 r.2).write ≠ some capacityInactiveValue := by
  have hconcedes : (decisionInput r.1 r.2).concedes = true := by
    rw [concedes_of_unresolved hr hun, hlast]
    rfl
  refine ⟨decide_phase_active.mpr hconcedes, ?_⟩
  have hpositive : r.1.spec.capacity.activeValue ≠ 0 := by
    have := hr.positive
    omega
  unfold decision
  rw [decide_write]
  simp only [CapacityDecisionInput.wanted, hconcedes, if_true, writeIfChanged]
  split
  · split
    · simp
    · simpa [decisionInput, capacityInactiveValue] using hpositive
  · simp

theorem not_held_of_forgotten (hr : Governed r) (hun : r.2.verdict.isActive? = none)
    (hlast : r.1.lastKnownActive = none) : (decision r.1 r.2).phase ≠ .active := by
  intro hactive
  have hconcedes := decide_phase_active.mp hactive
  rw [concedes_of_unresolved hr hun, hlast] at hconcedes
  cases hconcedes

end Hold

/--
Unresolved reconciles after one that found the provider active all decide active, and none writes
zero, exactly when there is one of them.
-/
theorem held_through_unresolved_iff {w : World} {es : List (Event World Answer)}
    (hG : holdGuard.Allows capacitySystem (.idle w) es)
    {unresolved rest : List (ScheduledCapacity × Observation)}
    {last : ScheduledCapacity × Observation}
    (hrounds : decided (capacitySystem.run (.idle w) es).trace = unresolved ++ last :: rest)
    (hactive : last.2.verdict.isActive? = some true) (hsome : unresolved ≠ [])
    (hunresolved : ∀ r ∈ unresolved, r.2.verdict.isActive? = none)
    (hgoverned : ∀ r ∈ unresolved, Governed r) :
    (∀ r ∈ unresolved, (decision r.1 r.2).phase = .active ∧
        (decision r.1 r.2).write ≠ some capacityInactiveValue) ↔
      unresolved.length = 1 := by
  have hchain := decided_isChain hG
  rw [hrounds] at hchain
  obtain rfl | ⟨earlier, first, rfl⟩ := unresolved.eq_nil_or_concat
  · exact absurd rfl hsome
  rw [List.concat_eq_append] at *
  have hfirst : first.1.lastKnownActive = some true := by
    have hlink := (List.isChain_append.mp hchain).2.2 first (by simp) last rfl
    exact hlink.trans hactive
  constructor
  · intro hall
    -- the second unresolved reconcile, if there is one, has nothing to hold on to
    obtain rfl | ⟨later, second, rfl⟩ := earlier.eq_nil_or_concat
    · rfl
    · rw [List.concat_eq_append] at *
      have hlink : Follows second first := by
        have hinner := (List.isChain_append.mp hchain).1
        exact (List.isChain_append.mp hinner).2.2 second (by simp) first rfl
      have hsecond : second ∈ later ++ [second] ++ [first] := by simp
      have hforgotten : second.1.lastKnownActive = none :=
        hlink.trans (hunresolved first (by simp))
      exact absurd (hall second hsecond).1
        (not_held_of_forgotten (hgoverned second hsecond) (hunresolved second hsecond) hforgotten)
  · intro hlength r hr
    have hearlier : earlier = [] := by
      simpa using hlength
    subst hearlier
    obtain rfl : r = first := by simpa using hr
    exact held_of_remembered (hgoverned r hr) (hunresolved r hr) hfirst

def holdTests : Tests holdGuard where
  start _ := true
  call _ q ch := !q.patches || ch == .ok
  start_sound _ _ := trivial
  call_sound _ q ch h hq := by simpa [hq] using h
  crash v := v.current.isNone
  crash_sound v h cur hcur := by simp [hcur] at h

def loseProvider (w : World) : World := { w with provider := none }

theorem admits_loseProvider (c : CapacityConfig) :
    holdGuard.Admits c (.move (loseProvider c.world)) := by
  change (loseProvider c.world).capacity.status = c.world.capacity.status
  rfl

def roundFacts (r : ScheduledCapacity × Observation) : Option Bool × Bool × Phase × Option Int :=
  (r.2.verdict.isActive?,
    r.2.target.writable && !r.2.conflict && r.1.spec.enabled && !r.1.spec.killSwitch &&
      Decidable.decide (1 ≤ r.1.spec.capacity.activeValue),
    (decision r.1 r.2).phase, (decision r.1 r.2).write)

theorem governed_of_roundFacts {r : ScheduledCapacity × Observation} (h : (roundFacts r).2.1 = true) :
    Governed r := by
  simp only [roundFacts, Bool.and_eq_true, Bool.not_eq_true'] at h
  obtain ⟨⟨⟨⟨hresolved, hconflict⟩, henabled⟩, hkill⟩, hpositive⟩ := h
  exact ⟨hresolved, hconflict, henabled, hkill, of_decide_eq_true hpositive⟩

def sampleUnresolved : List (Event World Answer) :=
  reconcileFor 17 ++ .move (loseProvider sampleActive.world) :: reconcileFor 17

theorem held_through_one_unresolved :
    ∃ first last, decided (capacitySystem.run (.idle sampleWorld) sampleUnresolved).trace = [first, last] ∧
      last.2.verdict.isActive? = some true ∧ first.2.verdict.isActive? = none ∧
      (decision first.1 first.2).phase = .active ∧
      (decision first.1 first.2).write ≠ some capacityInactiveValue := by
  have hrun : (decided (capacitySystem.run (.idle sampleWorld) sampleUnresolved).trace).map roundFacts =
        [(none, true, .active, none), (some true, true, .active, some 10)] ∧
      holdTests.passAll capacitySystem (.idle sampleWorld) (reconcileFor 17) = true ∧
      holdTests.passAll capacitySystem
        (capacitySystem.step sampleActive (.move (loseProvider sampleActive.world)))
        (reconcileFor 17) = true := by
    decide +kernel
  obtain ⟨hfacts, hpass⟩ := hrun
  have hallows : holdGuard.Allows capacitySystem (.idle sampleWorld) sampleUnresolved :=
    Tests.allows_move (admits_loseProvider sampleActive) hpass
  obtain ⟨first, tail, hrounds, hfirst, htail⟩ := List.map_eq_cons_iff.mp hfacts
  obtain ⟨last, tail, rfl, hlast, htail⟩ := List.map_eq_cons_iff.mp htail
  obtain rfl := List.map_eq_nil_iff.mp htail
  have hun : first.2.verdict.isActive? = none := congrArg Prod.fst hfirst
  have hactive : last.2.verdict.isActive? = some true := congrArg Prod.fst hlast
  have hgoverned : Governed first := governed_of_roundFacts (by rw [hfirst])
  have hsplit : decided (capacitySystem.run (.idle sampleWorld) sampleUnresolved).trace =
      [first] ++ last :: [] := hrounds
  have hheld := (held_through_unresolved_iff hallows hsplit hactive (by simp) (by simpa using hun)
    (by simpa using hgoverned)).mpr rfl first List.mem_cons_self
  exact ⟨first, last, hrounds, hactive, hun, hheld⟩

/-- The second unresolved reconcile hands the slice back and writes zero. -/
theorem second_unresolved_writes_zero :
    (decided (capacitySystem.run (.idle sampleWorld) (sampleUnresolved ++ reconcileFor 17)).trace).map
        roundFacts =
      [(none, true, .handingBack, some 0), (none, true, .active, none),
        (some true, true, .active, some 10)] := by
  decide +kernel

end FiveSpot.Capacity
