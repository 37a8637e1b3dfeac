import FiveSpot.Provider.Status

/-!
# Reconciles of a provider

`reconcile` of the two providers: one patch of the status and one requeue, at the next transition if
one was found. Followed through a life of spec edits and reconciles, this says when the requeue comes
in time and when the published transition is that of the spec.
-/

namespace FiveSpot.Provider

set_option autoImplicit false

open Calendar (toRfc3339)

structure ProviderObject where
  ns : Option String
  generation : Option I64
  spec : ProviderSpec
  status : Option ProviderStatus

/-- The requeue in nanoseconds; a transition in the past counts as none. -/
def requeueAfter (now : Instant) : Option Instant → Int
  | some next =>
      if 0 ≤ next - now then next - now else providerFallbackRequeueSecs * nanosPerSecond
  | none => providerFallbackRequeueSecs * nanosPerSecond

/-- What is computed before the API is called: the next transition and the patch. -/
def prepare (zones : Zones) (object : ProviderObject) (now : Instant) :
    Except ProviderError (Option Instant × Json) := do
  match object.ns with
  | none => throw (.unnamespaced object.spec.kind)
  | some _ =>
      let _ ← object.spec.isActiveAt zones now
      let next ← object.spec.nextTransition zones now
      let patch ← object.spec.computeStatus zones object.status object.generation now
      return (next, patch)

/-- `reconcile`: what it returns, and what is stored afterwards. -/
def reconcile (zones : Zones) (object : ProviderObject) (now : Instant) (answer : Answer)
    (stored : Json) : Except ProviderError Int × Json :=
  match prepare zones object now with
  | .error e => (.error e, stored)
  | .ok (next, patch) =>
      let (outcome, stored) := writeAnswer stored answer (.ok (Json.mergePatch patch stored))
      (match outcome with
        | .error e => .error (.kube e)
        | .ok () => .ok (requeueAfter now next), stored)

section Prepare

variable {zones : Zones} {object : ProviderObject} {now : Instant} {answer : Answer} {stored : Json}

theorem prepare_eq_ok_iff {next : Option Instant} {patch : Json} :
    prepare zones object now = .ok (next, patch) ↔
      object.ns.isSome = true ∧ object.spec.nextTransition zones now = .ok next ∧
        object.spec.computeStatus zones object.status object.generation now = .ok patch := by
  unfold prepare
  cases hns : object.ns with
  | none => simp
  | some ns =>
    simp only [Option.isSome_some, true_and]
    constructor
    · intro h
      obtain ⟨active, -, h⟩ := except_bind_eq_ok.mp h
      obtain ⟨next', hnext, h⟩ := except_bind_eq_ok.mp h
      obtain ⟨patch', hpatch, h⟩ := except_bind_eq_ok.mp h
      cases Except.ok.inj h
      exact ⟨hnext, hpatch⟩
    · rintro ⟨hnext, hpatch⟩
      have hactive : ∃ active, object.spec.isActiveAt zones now = .ok active := by
        rw [ProviderSpec.nextTransition_eq] at hnext
        obtain ⟨active, hactive, -⟩ := nextTransition_eq_ok_iff.mp hnext
        exact ⟨active, hactive⟩
      obtain ⟨active, hactive⟩ := hactive
      rw [hactive, hnext, hpatch]
      rfl

theorem exists_patch {next : Option Instant} (hnext : object.spec.nextTransition zones now = .ok next) :
    ∃ active text, object.spec.computeStatus zones object.status object.generation now =
      .ok (.obj (statusMembers object.spec.wording active object.generation text ++
        nextMember next)) := by
  rw [ProviderSpec.nextTransition_eq] at hnext
  obtain ⟨active, hactive, -⟩ := nextTransition_eq_ok_iff.mp hnext
  rw [ProviderSpec.computeStatus_eq]
  exact ⟨active, _, computeStatus_eq_ok _ _ _ hactive hnext⟩

theorem reconcile_ok {r : Int} (h : (reconcile zones object now answer stored).1 = .ok r) :
    object.ns.isSome = true ∧ answer = .ok ∧ ∃ next,
      object.spec.nextTransition zones now = .ok next ∧ r = requeueAfter now next := by
  unfold reconcile at h
  split at h
  · cases h
  · rename_i next patch hprepare
    obtain ⟨hns, hnext, -⟩ := prepare_eq_ok_iff.mp hprepare
    rcases answer with _ | ⟨e, _ | _⟩
    · exact ⟨hns, rfl, next, hnext, (Except.ok.inj h).symm⟩
    · cases h
    · cases h

/-- The transition that a reconcile puts into the stored status, if it puts one there. -/
def announces (zones : Zones) (object : ProviderObject) (now : Instant) (answer : Answer) :
    Option Instant :=
  if object.ns.isSome && answer.applied then (object.spec.nextTransition zones now).toOption.join
  else none

theorem stored_reconcile :
    (reconcile zones object now answer stored).2.get? "nextTransitionTime" =
      ((announces zones object now answer).map fun t => .str (toRfc3339 t)).or
        (stored.get? "nextTransitionTime") := by
  unfold reconcile
  split
  · rename_i e hprepare
    have hnothing : announces zones object now answer = none := by
      unfold announces
      split
      · rename_i happlied
        cases hnext : object.spec.nextTransition zones now with
        | error e => rfl
        | ok next =>
          obtain ⟨active, text, hpatch⟩ := exists_patch hnext
          have hns : object.ns.isSome = true := ((Bool.and_eq_true _ _).mp happlied).1
          rw [prepare_eq_ok_iff.mpr ⟨hns, hnext, hpatch⟩] at hprepare
          cases hprepare
      · rfl
    rw [hnothing]
    rfl
  · rename_i next patch hprepare
    obtain ⟨hns, hnext, hpatch⟩ := prepare_eq_ok_iff.mp hprepare
    obtain ⟨active, text, hpatch'⟩ := exists_patch hnext
    obtain rfl := Except.ok.inj (hpatch.symm.trans hpatch')
    simp only [writeAnswer_ok_snd, announces, hns, Bool.true_and, hnext]
    split
    · exact nextTransitionTime_merged
    · rfl

end Prepare

section Wake

variable {zones : Zones} {spec : ProviderSpec} {now t : Instant}

theorem requeueAfter_of_next (hnext : spec.nextTransition zones now = .ok (some t)) :
    requeueAfter now (some t) = t - now := by
  rw [ProviderSpec.nextTransition_eq] at hnext
  obtain ⟨active, -, hscan⟩ := nextTransition_eq_ok_iff.mp hnext
  have hlt := ((Scan.firstChange_eq_some_iff hourNanos_pos).mp hscan).now_lt hourNanos_pos
  exact if_pos (Int.sub_nonneg_of_le (Int.le_of_lt hlt))

/--
A reconcile that asks for the next transition is woken at the next change there is exactly when that is
on a whole hour of UTC.
-/
theorem wakes_at_boundary_iff (zones : Zones) (object : ProviderObject) (now t : Instant)
    (answer : Answer) (stored : Json) (r : Int)
    (hok : (reconcile zones object now answer stored).1 = .ok r)
    (hnext : object.spec.nextTransition zones now = .ok (some t)) :
    ((∀ s, now ≤ s → s < now + r →
        object.spec.isActiveAt zones s = object.spec.isActiveAt zones now) ∧
      object.spec.isActiveAt zones (now + r) ≠ object.spec.isActiveAt zones now) ↔
    ∀ u, Scan.IsNextChange (object.spec.isActiveAt zones) now u → hourNanos ∣ u := by
  obtain ⟨-, -, next, hnext', rfl⟩ := reconcile_ok hok
  obtain rfl : next = some t := Except.ok.inj (hnext'.symm.trans hnext)
  rw [requeueAfter_of_next hnext, show now + (t - now) = t by rw [Int.add_comm, Int.sub_add_cancel]]
  rw [ProviderSpec.nextTransition_eq] at hnext
  obtain ⟨active, hactive, hscan⟩ := nextTransition_eq_ok_iff.mp hnext
  rw [Scan.firstChange_eq_some_iff hourNanos_pos] at hscan
  rw [← hscan.isNextChange_iff hourNanos_pos hactive]
  exact ⟨fun h => ⟨hscan.now_lt hourNanos_pos, h.1, h.2⟩, fun h => ⟨h.same, h.change⟩⟩

/-- Under offsets of whole hours that change on the hour every change is on the hour. -/
theorem change_on_hour {zone : Zone} (hzone : zones spec.timezone = some zone)
    (hwhole : ∀ s, now ≤ s → ProviderSpec.WholeHours zone s (max now (Scan.floorTo hourNanos s)))
    {u : Instant} (hu : Scan.IsNextChange (spec.isActiveAt zones) now u) : hourNanos ∣ u := by
  refine hu.dvd_of_steady hourNanos_pos ?_
  refine ProviderSpec.isActiveAt_eq_of_wholeHours hzone (hwhole u (Int.le_of_lt hu.after)) ?_
  exact Scan.ediv_eq_of_floorTo_le hourNanos_pos (Int.le_max_right _ _)
    (Int.max_le.mpr ⟨Int.le_of_lt hu.after, Scan.floorTo_le hourNanos_pos u⟩)

def sampleObject : ProviderObject := ⟨some "default", none, sampleOffice, none⟩

theorem wakes_at_boundary_sample :
    (∀ s, 0 ≤ s → s < 0 + 9 * hourNanos →
        sampleOffice.isActiveAt sampleZones s = sampleOffice.isActiveAt sampleZones 0) ∧
      sampleOffice.isActiveAt sampleZones (0 + 9 * hourNanos) ≠
        sampleOffice.isActiveAt sampleZones 0 := by
  have hzone : sampleZones "UTC" = some ⟨fun _ => 0⟩ := rfl
  refine (wakes_at_boundary_iff sampleZones sampleObject 0 (9 * hourNanos) .ok .null (9 * hourNanos)
    (by decide +kernel) (by decide +kernel)).mpr fun u hu => ?_
  exact change_on_hour hzone (fun _ _ => ⟨Int.dvd_zero 3600, rfl⟩) hu

def sampleIndia : Zones := fun _ => some ⟨fun _ => 19800⟩

def sampleDaily : ProviderObject :=
  ⟨some "default", none, .timeBased ⟨["mon-sun"], ["9-17"], "Asia/Kolkata", true⟩, none⟩

/-- At 03:15 UTC the requeue is for 04:00, but the window opens at 03:30. -/
theorem wakes_after_boundary :
    (reconcile sampleIndia sampleDaily (11700 * nanosPerSecond) .ok .null).1 =
        .ok (2700 * nanosPerSecond) ∧
      sampleDaily.spec.nextTransition sampleIndia (11700 * nanosPerSecond) =
        .ok (some (14400 * nanosPerSecond)) ∧
      sampleDaily.spec.isActiveAt sampleIndia (11700 * nanosPerSecond) = .ok false ∧
      sampleDaily.spec.isActiveAt sampleIndia (12600 * nanosPerSecond) = .ok true := by
  decide +kernel

end Wake

section Published

/-- What happens to a provider: its spec is edited, or it is reconciled with what was read of it. -/
inductive ProviderEvent where
  | edit (spec : ProviderSpec) (generation : Option I64)
  | reconcile (now : Instant) (previous : Option ProviderStatus) (answer : Answer)

structure ProviderState where
  ns : Option String
  generation : Option I64
  spec : ProviderSpec
  stored : Json

variable (zones : Zones)

namespace ProviderState

def object (s : ProviderState) (previous : Option ProviderStatus) : ProviderObject :=
  ⟨s.ns, s.generation, s.spec, previous⟩

def step (s : ProviderState) : ProviderEvent → ProviderState
  | .edit spec generation => { s with spec := spec, generation := generation }
  | .reconcile now previous answer =>
      { s with stored := (reconcile zones (s.object previous) now answer s.stored).2 }

def run (s : ProviderState) (es : List ProviderEvent) : ProviderState := es.foldl (step zones) s

/-- Some reconcile of the run has put a transition into the stored status. -/
def announced (s : ProviderState) : List ProviderEvent → Bool
  | [] => false
  | .edit spec generation :: es => announced (s.step zones (.edit spec generation)) es
  | .reconcile now previous answer :: es =>
      (announces zones (s.object previous) now answer).isSome ||
        announced (s.step zones (.reconcile now previous answer)) es

theorem stored_run (s : ProviderState) (es : List ProviderEvent) :
    (s.run zones es).stored.get? "nextTransitionTime" = none ↔
      s.stored.get? "nextTransitionTime" = none ∧ s.announced zones es = false := by
  induction es generalizing s with
  | nil => simp [run, announced]
  | cons e es ih =>
    have hrun : s.run zones (e :: es) = (s.step zones e).run zones es := rfl
    rw [hrun, ih]
    cases e with
    | edit spec generation => rfl
    | reconcile now previous answer =>
      have hstored : (s.step zones (.reconcile now previous answer)).stored.get?
          "nextTransitionTime" = _ := stored_reconcile
      rw [hstored, announced]
      cases announces zones (s.object previous) now answer <;> simp

end ProviderState

/--
After a reconcile that returns well, the stored transition is that of the spec exactly when there is
one or none has ever been stored.
-/
theorem published_transition_iff (s : ProviderState) (es : List ProviderEvent) (now : Instant)
    (previous : Option ProviderStatus) (answer : Answer) (r : Int)
    (hok : (reconcile zones ((s.run zones es).object previous) now answer
      (s.run zones es).stored).1 = .ok r) :
    ∃ next, (s.run zones es).spec.nextTransition zones now = .ok next ∧
      (((s.run zones es).step zones (.reconcile now previous answer)).stored.get?
          "nextTransitionTime" = next.map (fun t => .str (toRfc3339 t)) ↔
        next.isSome = true ∨
          s.stored.get? "nextTransitionTime" = none ∧ s.announced zones es = false) := by
  obtain ⟨hns, rfl, next, hnext, -⟩ := reconcile_ok hok
  refine ⟨next, hnext, ?_⟩
  have hannounces : announces zones ((s.run zones es).object previous) now .ok = next := by
    rw [announces, hns, hnext]
    rfl
  have hstored : ((s.run zones es).step zones (.reconcile now previous .ok)).stored.get?
      "nextTransitionTime" = _ := stored_reconcile
  rw [hstored, hannounces, ← ProviderState.stored_run]
  cases next <;> simp

end Published

section Sample

def sampleState : ProviderState := ⟨some "default", none, sampleOffice, .null⟩

def sampleHistory : List ProviderEvent :=
  [.reconcile 0 none .ok, .reconcile 0 none (.fail (.api 500 "") false),
    .edit (.timeBased ⟨["mon-fri"], ["10-18"], "UTC", true⟩) none]

/-- After the edit the stored transition is replaced by that of the new hours. -/
theorem published_transition_sample :
    ((sampleState.run sampleZones sampleHistory).stored.get? "nextTransitionTime").bind Json.asStr? =
        some "1970-01-01T09:00:00+00:00" ∧
      ((sampleState.run sampleZones sampleHistory).step sampleZones
          (.reconcile hourNanos none .ok)).stored.get? "nextTransitionTime" =
        some (.str (toRfc3339 (10 * hourNanos))) := by
  have hfacts : ((sampleState.run sampleZones sampleHistory).stored.get?
        "nextTransitionTime").bind Json.asStr? = some "1970-01-01T09:00:00+00:00" ∧
      (sampleState.run sampleZones sampleHistory).spec.nextTransition sampleZones hourNanos =
        .ok (some (10 * hourNanos)) := by
    decide +kernel
  obtain ⟨next, hnext, hpublished⟩ := published_transition_iff sampleZones sampleState sampleHistory
    hourNanos none .ok (9 * hourNanos) (by decide +kernel)
  obtain rfl : next = some (10 * hourNanos) := Except.ok.inj (hnext.symm.trans hfacts.2)
  exact ⟨hfacts.1, hpublished.mpr (.inl rfl)⟩

/-- A reconcile, then the schedule is switched off, then another reconcile. -/
def sampleSwitchedOff : List ProviderEvent :=
  [.reconcile 0 none .ok, .edit (.timeBased ⟨["mon-fri"], ["9-17"], "UTC", false⟩) none,
    .reconcile hourNanos none .ok]

/-- The transition of the schedule that was switched off is still published. -/
theorem published_transition_stale :
    (sampleState.run sampleZones sampleSwitchedOff).spec.nextTransition sampleZones hourNanos =
        .ok none ∧
      ((sampleState.run sampleZones sampleSwitchedOff).stored.get? "nextTransitionTime").bind
        Json.asStr? = some "1970-01-01T09:00:00+00:00" := by
  decide +kernel

end Sample

end FiveSpot.Provider
