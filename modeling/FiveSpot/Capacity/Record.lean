import FiveSpot.Capacity.Frame

/-!
# The written value on record

`status.writtenValue` is meant to be what the latest accepted apply carried to the capacity field of the
owned object. It is followed through whole runs against that apply, read off the trace: the value is
carried forward by every reconcile that writes nothing, so one reconcile that leaves it behind, or one
that writes elsewhere, is enough to make it wrong later.
-/

namespace FiveSpot.Capacity

set_option autoImplicit false

open Effects

/-- Where the value of a resource goes: the owned object, and the capacity field in its spec. -/
structure Place where
  apiVersion : String
  kind : String
  ns : Option String
  name : String
  field : String
  deriving DecidableEq

def ScheduledCapacity.place (c : ScheduledCapacity) : Place where
  apiVersion := c.spec.target.apiVersion
  kind := c.spec.target.kind
  ns := c.ns
  name := c.name
  field := c.spec.capacity.field

def Place.isIn (place : Place) (o : OwnedObject) : Bool :=
  o.apiVersion == place.apiVersion && o.kind == place.kind && some o.ns == place.ns &&
    o.name == place.name

def startedPlace : CapacityTrace → Option Place
  | [] => none
  | .started w :: _ => some w.capacity.place
  | _ :: t => startedPlace t

/-- What the latest accepted apply of the owned object carried in the capacity field. -/
def Place.lastApplied (place : Place) : CapacityTrace → Option Int
  | [] => none
  | .called _ (.applyObject _ _ _ desired) ch :: t =>
      if ch.applied && place.isIn desired then readI64At desired.spec place.field
      else place.lastApplied t
  | _ :: t => place.lastApplied t

/-- The same, for the owned object and the field of the latest reconcile. -/
def lastApplied (t : CapacityTrace) : Option Int :=
  (startedPlace t).bind fun place => place.lastApplied t

/--
A status patch that claims a value claims the one of the latest accepted apply, where the reconcile
that sends the patch has its owned object and its capacity field.
-/
structure ClaimsApplied
    (o : Obs Request Response World Answer (Except CapacityError (Option Observation)))
    (t : CapacityTrace) : Prop where
  claim : ∀ w p ch, o = .called w (.patchStatus p) ch →
    ∀ x, p.writtenValue = .set x → lastApplied t = some x

/-- The reconcile has had an apply accepted that no status patch of its own records yet. -/
structure Owing (h : Log) : Prop where
  unpatched : Unpatched h
  applied : ∃ plural ns name desired, ⟨.applyObject plural ns name desired, .ok ()⟩ ∈ h

/--
The status is the controller's own. With a value on record, a reconcile has the owned object and the
capacity field of the reconcile before it. An accepted apply is answered, and its status patch takes
effect before the process ends. A conflict on a target that may not be written is met only with zero
already on record.
-/
def recordGuard : CapacityGuard where
  move := StatusKept
  start := fun v => v.world.capacity.writtenValue.isSome = true →
    startedPlace v.trace = some v.world.capacity.place
  call := fun v q ch =>
    match q with
    | .applyObject _ _ _ _ => ch.applied = true → ch = .ok
    | .patchStatus _ => ∀ cur, v.current = some cur → (Owing cur.done → ch.applied = true) ∧
        (conflictSeen cur.snapshot.capacity cur.done = true →
          foundWritable cur.snapshot.capacity cur.done = false →
          cur.snapshot.capacity.writtenValue = some capacityInactiveValue)
    | _ => True
  crash := fun v => ∀ cur, v.current = some cur → ¬ Owing cur.done

def Recorded (v : CapacityView) : Prop :=
  ∀ x, v.world.capacity.writtenValue = some x → lastApplied v.trace = some x

/-- The value on record is right, except between an accepted apply and its status patch. -/
structure Honest (v : CapacityView) : Prop where
  claims : Throughout ClaimsApplied v.trace
  abreast : Abreast v
  place : ∀ cur, v.current = some cur → startedPlace v.trace = some cur.snapshot.capacity.place
  applied : ∀ cur, v.current = some cur → ∀ plural ns name desired,
    ⟨.applyObject plural ns name desired, .ok ()⟩ ∈ cur.done →
    lastApplied v.trace = readI64At desired.spec cur.snapshot.capacity.spec.capacity.field
  recorded : (∀ cur, v.current = some cur → ¬ Owing cur.done) → Recorded v

section Histories

variable {c : ScheduledCapacity} {o : Observation} {h : Log}

section Applied

variable {w : World} {t : CapacityTrace} {plural ns name : String} {desired : OwnedObject} {ch : Answer}

theorem lastApplied_apply {place : Place} (hplace : startedPlace t = some place)
    (hch : ch.applied = true) (hin : place.isIn desired = true) :
    lastApplied (.called w (.applyObject plural ns name desired) ch :: t) =
      readI64At desired.spec place.field := by
  simp [lastApplied, startedPlace, Place.lastApplied, hplace, hch, hin]

theorem lastApplied_refused (hch : ch.applied = false) :
    lastApplied (.called w (.applyObject plural ns name desired) ch :: t) = lastApplied t := by
  simp [lastApplied, startedPlace, Place.lastApplied, hch]

theorem buildOwnedObject_place {value : Int} (hns : c.ns = some ns)
    (hbuild : buildOwnedObject c ns value = .ok desired) : c.place.isIn desired = true := by
  unfold buildOwnedObject at hbuild
  split at hbuild
  · cases hbuild
  · split at hbuild <;> cases hbuild
    simp [Place.isIn, ScheduledCapacity.place, hns]

end Applied

theorem Untouched.not_owing (hu : Untouched h) : ¬ Owing h := by
  rintro ⟨_, plural, ns, name, desired, hmem⟩
  cases hu _ hmem

theorem not_owing_of_patched {p : StatusPatch} {r : Response (.patchStatus p)}
    (hmem : ⟨.patchStatus p, r⟩ ∈ h) : ¬ Owing h := by
  intro howing
  cases howing.unpatched _ hmem

theorem not_owing_of_refused {plural ns name : String} {desired : OwnedObject} {e : KubeError}
    (hu : Untouched h) : ¬ Owing (⟨.applyObject plural ns name desired, .error e⟩ :: h) := by
  rintro ⟨_, plural, ns, name, desired, hmem⟩
  rcases List.mem_cons.mp hmem with heq | hmem
  · cases heq
  · cases hu _ hmem

theorem conflict_of_unsent (hi : Informed c h o) (hsome : (decision c o).write.isSome = true)
    (hnone : o.target.apiResource = none) :
    conflictSeen c h = true ∧ foundWritable c h = false ∧
      c.writtenValue ≠ some capacityInactiveValue := by
  have hblocked : o.target.writable = false := by
    rw [← hi.target.apiResource, hnone]
    rfl
  have hconflict : o.conflict = true := by
    cases hc : o.conflict with
    | true => rfl
    | false =>
      unfold decision at hsome
      rw [decide_write] at hsome
      simp [decisionInput, hc, hblocked] at hsome
  refine ⟨hi.conflict ▸ hconflict, hi.target.writable ▸ hblocked, ?_⟩
  intro hzero
  unfold decision at hsome
  rw [decide_conflict_write hconflict] at hsome
  simp [decisionInput, writeIfChanged, hzero] at hsome

end Histories

namespace Honest

variable {v : CapacityView}

theorem recordedValue_applied (hv : Honest v) {cur : Current Request Response World}
    (hcur : v.current = some cur) {o : Observation}
    (hi : Informed cur.snapshot.capacity cur.done o)
    (hw : Written cur.snapshot.capacity o cur.done)
    (hblocked : conflictSeen cur.snapshot.capacity cur.done = true →
      foundWritable cur.snapshot.capacity cur.done = false →
      cur.snapshot.capacity.writtenValue = some capacityInactiveValue)
    {x : Int} (hx : recordedValue cur.snapshot.capacity o = some x) :
    lastApplied v.trace = some x := by
  have hstatus := hv.abreast cur hcur hw.unpatched
  cases hw with
  | nothing hnone hu =>
    -- carried forward: the status was right and nothing was applied since
    have hrecorded : Recorded v := hv.recorded fun cur' hcur' => by
      rw [hcur] at hcur'
      cases hcur'
      exact hu.not_owing
    refine hrecorded x ?_
    have hcarried : cur.snapshot.capacity.writtenValue = some x := by
      simpa [recordedValue, hnone] using hx
    unfold ScheduledCapacity.writtenValue at hcarried ⊢
    rw [← hstatus]
    exact hcarried
  | unsent hsome hnone _ =>
    obtain ⟨hconflict, hfound, hne⟩ := conflict_of_unsent hi hsome hnone
    exact absurd (hblocked hconflict hfound) hne
  | applied happlies _ hgrown =>
    obtain ⟨value, hvalue, hcarries⟩ := happlies.carries
    have hmem := hgrown.mem List.mem_cons_self
    rw [hv.applied cur hcur _ _ _ _ hmem, hcarries]
    simpa [recordedValue, hvalue] using hx

theorem moved {w : World} (hv : Honest v) (hw : StatusKept v w) : Honest (v.moved w) where
  claims := .cons ⟨fun _ _ _ heq => by cases heq⟩ hv.claims
  abreast := hv.abreast.moved hw
  place := hv.place
  applied := hv.applied
  recorded := by
    intro hnone x hx
    refine hv.recorded hnone x ?_
    unfold ScheduledCapacity.writtenValue at hx ⊢
    rw [← hw]
    exact hx

theorem started (hv : Honest v) (hidle : v.current = none) (hG : recordGuard.start v) :
    Honest v.started where
  claims := .cons ⟨fun _ _ _ heq => by cases heq⟩ hv.claims
  abreast := .started
  place := by
    intro cur hcur
    cases hcur
    rfl
  applied := by
    intro cur hcur plural ns name desired hmem
    cases hcur
    cases hmem
  recorded := by
    intro _ x hx
    have hrecorded : Recorded v := hv.recorded fun cur hcur => by
      rw [hidle] at hcur
      cases hcur
    have hbefore := hrecorded x hx
    -- the value was applied where the reconcile before had its object, which is where this one has it
    rw [lastApplied, hG (Option.isSome_of_mem hx)] at hbefore
    exact hbefore

theorem read (hv : Honest v) {cur : Current Request Response World} {q : Request} {ch : Answer}
    (hcur : v.current = some cur) (hq : q.reads = true) :
    Honest (v.called capacitySystem cur q ch) := by
  have hsame : lastApplied (v.called capacitySystem cur q ch).trace = lastApplied v.trace := by
    cases q <;> first | rfl | cases hq
  have hworld : (v.called capacitySystem cur q ch).world = v.world := exec_reads hq
  refine ⟨.cons ⟨fun _ _ _ heq => ?_⟩ hv.claims, hv.abreast.called hcur, ?_, ?_, ?_⟩
  · cases heq
    cases hq
  · intro cur' hcur'
    cases hcur'
    exact hv.place cur hcur
  · intro cur' hcur' plural ns name desired hmem
    cases hcur'
    rw [hsame]
    rcases List.mem_cons.mp hmem with heq | hmem
    · obtain ⟨rfl, _⟩ := Sigma.mk.inj heq
      cases hq
    · exact hv.applied cur hcur plural ns name desired hmem
  · intro hnot x hx
    rw [hworld] at hx
    rw [hsame]
    refine hv.recorded (fun cur' hcur' howing => ?_) x hx
    rw [hcur] at hcur'
    cases hcur'
    refine hnot _ rfl ⟨fun y hy => ?_, ?_⟩
    · rcases List.mem_cons.mp hy with rfl | hy
      · exact patches_of_reads hq
      · exact howing.unpatched y hy
    · obtain ⟨plural, ns, name, desired, hmem⟩ := howing.applied
      exact ⟨plural, ns, name, desired, List.mem_cons_of_mem _ hmem⟩

theorem apply (hv : Honest v) {cur : Current Request Response World} {plural ns name : String}
    {desired : OwnedObject} {ch : Answer} (hcur : v.current = some cur) (hu : Untouched cur.done)
    (hplace : cur.snapshot.capacity.place.isIn desired = true)
    (hch : ch.applied = true → ch = .ok) :
    Honest (v.called capacitySystem cur (.applyObject plural ns name desired) ch) := by
  refine ⟨.cons ⟨fun _ _ _ heq => by cases heq⟩ hv.claims, hv.abreast.called hcur, ?_, ?_, ?_⟩
  · intro cur' hcur'
    cases hcur'
    exact hv.place cur hcur
  · intro cur' hcur' plural' ns' name' desired' hmem
    cases hcur'
    rcases List.mem_cons.mp hmem with heq | hmem
    · obtain ⟨hq, hr⟩ := Sigma.mk.inj heq
      cases hq
      have hok : ch.applied = true := by
        rcases ch with _ | ⟨e, applied⟩
        · rfl
        · cases applied <;> cases eq_of_heq hr
      exact lastApplied_apply (hv.place cur hcur) hok hplace
    · cases hu _ hmem
  · intro hnot
    cases hok : ch.applied with
    | true =>
      cases hch hok
      refine absurd ⟨fun y hy => ?_, plural, ns, name, desired, List.mem_cons_self⟩ (hnot _ rfl)
      rcases List.mem_cons.mp hy with rfl | hy
      · rfl
      · exact hu.unpatched y hy
    | false =>
      intro x hx
      change (v.world.exec (.applyObject plural ns name desired) ch).2.capacity.writtenValue = some x at hx
      rw [exec_capacity rfl] at hx
      refine (lastApplied_refused hok).trans (hv.recorded (fun cur' hcur' => ?_) x hx)
      rw [hcur] at hcur'
      cases hcur'
      exact hu.not_owing

theorem patch (hv : Honest v) {cur : Current Request Response World} {p : StatusPatch} {ch : Answer}
    (hcur : v.current = some cur)
    (hclaim : ∀ x, p.writtenValue = .set x → lastApplied v.trace = some x)
    (hcover : ∀ x old, (p.apply old).writtenValue = some x → p.writtenValue = .set x)
    (happlied : Owing cur.done → ch.applied = true) :
    Honest (v.called capacitySystem cur (.patchStatus p) ch) := by
  refine ⟨.cons ⟨fun _ _ _ heq => ?_⟩ hv.claims, hv.abreast.called hcur, ?_, ?_, ?_⟩
  · cases heq
    exact hclaim
  · intro cur' hcur'
    cases hcur'
    exact hv.place cur hcur
  · intro cur' hcur' plural ns name desired hmem
    cases hcur'
    rcases List.mem_cons.mp hmem with heq | hmem
    · cases heq
    · exact hv.applied cur hcur plural ns name desired hmem
  · intro _ x hx
    change (v.world.exec (.patchStatus p) ch).2.capacity.writtenValue = some x at hx
    rw [exec_patch] at hx
    change lastApplied v.trace = some x
    split at hx
    · exact hclaim x (hcover x _ hx)
    · rename_i hfailed
      refine hv.recorded (fun cur' hcur' howing => ?_) x hx
      rw [hcur] at hcur'
      cases hcur'
      exact hfailed (happlied howing)

theorem called (hv : Honest v) {cur : Current Request Response World} {q : Request} {ch : Answer}
    (hcur : v.current = some cur) (hq : Permitted cur.snapshot.capacity cur.done q)
    (hG : recordGuard.call v q ch) : Honest (v.called capacitySystem cur q ch) := by
  cases hq with
  | lookUp hlook => exact hv.read hcur (reads_of_looksUp hlook)
  | getObject _ => exact hv.read hcur rfl
  | listMachines _ _ => exact hv.read hcur rfl
  | apply _ hu happlies =>
    cases happlies with
    | mk hns _ _ hbuild => exact hv.apply hcur hu (buildOwnedObject_place hns hbuild) hG
  | patch hi hw _ =>
    obtain ⟨happlied, hblocked⟩ := hG cur hcur
    refine hv.patch hcur (fun x hx => ?_) (fun x old hx => ?_) happlied
    · refine hv.recordedValue_applied hcur hi hw hblocked ?_
      exact MergeField.orNull_eq_set.mp hx
    · refine MergeField.orNull_eq_set.mpr ?_
      simpa [statusPatch] using hx

theorem finished (hv : Honest v) {cur : Current Request Response World}
    {a : Except CapacityError (Option Observation)} (hcur : v.current = some cur)
    (ha : Returns cur.snapshot.capacity a cur.done) : Honest (v.finished cur a) := by
  have hnot : ¬ Owing cur.done := by
    generalize cur.done = h at ha
    cases ha with
    | standby hu => exact hu.not_owing
    | patched _ _ => exact not_owing_of_patched List.mem_cons_self
    | failed hu => exact hu.not_owing
    | notApplied hu => exact not_owing_of_refused hu
    | notPatched => exact not_owing_of_patched List.mem_cons_self
    | @kept _ o ns conditions _ hw hstatus =>
      cases hw with
      | nothing _ hu => exact hu.not_owing
      | unsent _ _ hu => exact hu.not_owing
      | applied happlies _ _ =>
        -- after a write the new status differs from the stored one
        obtain ⟨value, hvalue, _⟩ := happlies.carries
        refine absurd ?_ (write_ne_writtenValue hvalue)
        unfold ScheduledCapacity.writtenValue
        rw [hstatus]
        simp [statusPatch, recordedValue, hvalue]
  refine ⟨.cons ⟨fun _ _ _ heq => by cases heq⟩ hv.claims, .finished, ?_, ?_, ?_⟩
  · exact fun cur' hcur' => by cases hcur'
  · exact fun cur' hcur' => by cases hcur'
  · intro _
    refine hv.recorded fun cur' hcur' => ?_
    rw [hcur] at hcur'
    cases hcur'
    exact hnot

theorem restarted (hv : Honest v) (hnot : ∀ cur, v.current = some cur → ¬ Owing cur.done) :
    Honest (v.restarted capacitySystem) where
  claims := .cons ⟨fun _ _ _ heq => by cases heq⟩ hv.claims
  abreast := .restarted
  place := fun cur' hcur' => by cases hcur'
  applied := fun cur' hcur' => by cases hcur'
  recorded := fun _ => hv.recorded hnot

end Honest

theorem honest_preserved : capacityContract.Preserves capacitySystem recordGuard Honest where
  move := fun _ _ hv hw => hv.moved hw
  start := fun v hv hidle hG => ⟨capacityContract_binds v.world, hv.started hidle hG⟩
  call := fun _ _ _ _ hv hcur hq hG => ⟨trivial, hv.called hcur hq hG⟩
  finish := fun _ _ _ hv hcur ha => hv.finished hcur ha
  crash := fun _ hv hnot => hv.restarted hnot

/--
In every such run from a new resource, each status patch claims what was applied last to the field of
the owned object.
-/
theorem status_claims_last_applied {w : World} (hnew : w.capacity.status = none)
    {es : List (Event World Answer)} (hG : recordGuard.Allows capacitySystem (.idle w) es) :
    Throughout ClaimsApplied (capacitySystem.run (.idle w) es).trace := by
  have hinit : Honest ⟨w, [], none⟩ := by
    refine ⟨.nil, ?_, ?_, ?_, fun _ x hx => ?_⟩
    · exact fun cur hcur => by cases hcur
    · exact fun cur hcur => by cases hcur
    · exact fun cur hcur => by cases hcur
    · simp [ScheduledCapacity.writtenValue, hnew] at hx
  exact (honest_preserved.run_idle hinit hG).claims

def recordTests : Tests recordGuard where
  start v := v.world.capacity.writtenValue.isNone ||
    startedPlace v.trace == some v.world.capacity.place
  call v q ch :=
    match q with
    | .applyObject _ _ _ _ => !ch.applied || ch == .ok
    | .patchStatus _ => ch.applied && v.current.all fun cur =>
        !conflictSeen cur.snapshot.capacity cur.done || foundWritable cur.snapshot.capacity cur.done
    | _ => true
  start_sound v h hsome := by
    rw [Option.isNone_eq_false_iff.mpr hsome] at h
    exact beq_iff_eq.mp h
  call_sound v q ch h := by
    cases q with
    | applyObject plural ns name desired =>
      intro happlied
      simpa [happlied] using h
    | patchStatus p =>
      intro cur hcur
      obtain ⟨happlied, hall⟩ := (Bool.and_eq_true _ _).mp h
      refine ⟨fun _ => happlied, fun hconflict hfound => ?_⟩
      rw [hcur] at hall
      simp [hconflict, hfound] at hall
    | _ => trivial
  crash v := v.current.isNone
  crash_sound v h cur hcur := by simp [hcur] at h

theorem admits_setProvider (active : Bool) (c : CapacityConfig) :
    recordGuard.Admits c (.move (setProvider active c.world)) := by
  change (setProvider active c.world).capacity.status = c.world.capacity.status
  rfl

def sampleWindow : List (Event World Answer) :=
  reconcileFor 17 ++ .move (setProvider false sampleActive.world) :: reconcileFor 17

theorem status_claims_zero_after_window :
    sampleWorld.capacity.status = none ∧
      (capacitySystem.run (.idle sampleWorld) sampleWindow).world.capacity.writtenValue = some 0 ∧
      lastApplied (capacitySystem.run (.idle sampleWorld) sampleWindow).trace = some 0 ∧
      Throughout ClaimsApplied (capacitySystem.run (.idle sampleWorld) sampleWindow).trace := by
  have hrun : let c := capacitySystem.run (.idle sampleWorld) sampleWindow
      (c.world.capacity.writtenValue = some 0 ∧ lastApplied c.trace = some 0) ∧
        recordTests.passAll capacitySystem (.idle sampleWorld) (reconcileFor 17) = true ∧
        recordTests.passAll capacitySystem
          (capacitySystem.step sampleActive (.move (setProvider false sampleActive.world)))
          (reconcileFor 17) = true := by
    decide +kernel
  refine ⟨rfl, hrun.1.1, hrun.1.2, status_claims_last_applied rfl ?_⟩
  exact Tests.allows_move (admits_setProvider false sampleActive) hrun.2

def claimsTest (o : Obs Request Response World Answer (Except CapacityError (Option Observation)))
    (t : CapacityTrace) : Bool :=
  match o with
  | .called _ (.patchStatus p) _ =>
      match p.writtenValue with
      | .set x => lastApplied t == some x
      | _ => true
  | _ => true

theorem claimsTest_of_claimsApplied
    (o : Obs Request Response World Answer (Except CapacityError (Option Observation)))
    (t : CapacityTrace) (h : ClaimsApplied o t) : claimsTest o t = true := by
  unfold claimsTest
  split
  · split
    · rename_i x hx
      exact beq_iff_eq.mpr (h.claim _ _ _ rfl x hx)
    · rfl
  · rfl

/-- The verbs the controller needs are taken away while a conflict arises. -/
def contestBlocked (w : World) : World := { contest w with access := fun _ _ _ => some false }

/-- Zero is applied, and the process ends before the status says so. -/
def sampleInterrupted : CapacityConfig :=
  capacitySystem.run sampleActive
    (.move (setProvider false sampleActive.world) :: reconcileFor 10 ++ [.crash])

/-- The resource is edited to write to another field of the owned object. -/
def refield (w : World) : World :=
  { w with capacity := { w.capacity with spec := { w.capacity.spec with
      capacity := { w.capacity.spec.capacity with field := "minReplicas" } } } }

/--
With ten on the object, a conflict on a blocked target makes the status claim a zero that was never
sent; after an interrupted reconcile that applied zero, a reopened window makes it claim ten; and with
another capacity field in the spec it claims ten for a field that no apply has carried.
-/
theorem status_claims_unsent_write :
    ¬ Throughout ClaimsApplied (capacitySystem.run sampleActive
        (.move (contestBlocked sampleActive.world) :: reconcileFor 17)).trace ∧
      ¬ Throughout ClaimsApplied (capacitySystem.run sampleInterrupted
        (.move (setProvider true sampleInterrupted.world) :: reconcileFor 17)).trace ∧
      ¬ Throughout ClaimsApplied (capacitySystem.run sampleActive
        (.move (refield sampleActive.world) :: reconcileFor 17)).trace := by
  refine ⟨?_, ?_, ?_⟩
  all_goals
    intro h
    have hall := h.everywhere claimsTest_of_claimsApplied
    revert hall
    decide +kernel

end FiveSpot.Capacity
