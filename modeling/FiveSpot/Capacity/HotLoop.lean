import FiveSpot.Capacity.Convergence
import FiveSpot.Capacity.Settling

/-!
# No hot loop

In surroundings that answer every reconcile the same way, the reconciler comes to rest: each PATCH of the
status takes the resource one level down, and an apply is sent only where a PATCH has yet to follow.
-/

namespace FiveSpot.Capacity

set_option autoImplicit false

open Effects

def isCall (p : Request → Bool) :
    Obs Request Response World Answer (Except CapacityError (Option Observation)) → Bool
  | .called _ q _ => p q
  | _ => false

def callCount (p : Request → Bool) (t : CapacityTrace) : Nat := t.countP (isCall p)

/--
The spec is fixed and the status left to the controller; the object comes to be by an apply only, and the
clock does not go back. The calls are answered as `E` has it, and no reconcile is cut short.
-/
def steadyGuard (E : Outlook) : CapacityGuard where
  move v w := w.capacity = v.world.capacity ∧ w.object.isSome = v.world.object.isSome ∧
    v.world.clock ≤ w.clock
  start _ := True
  call v q ch := E.Answers v.world q (v.world.exec q ch).1
  crash _ := False

/-- The reconcile in flight works on what there is, and writes to it no more than its level allows. -/
structure InFlight (E : Outlook) (ns : String) (w : World) (n : Nat)
    (cur : Current Request Response World) : Prop where
  clock : cur.snapshot.clock ≤ w.clock
  times : ∀ t : Instant, ⟨.now, t⟩ ∈ cur.done → cur.snapshot.clock ≤ t ∧ t ≤ w.clock
  capacity : Unpatched cur.done → cur.snapshot.capacity = w.capacity
  present : Untouched cur.done → w.object.isSome = cur.snapshot.object.isSome
  level : Unpatched cur.done → Level E ns cur.snapshot n
  applied : Unpatched cur.done → ¬ Untouched cur.done → 3 ≤ n

/-- No apply waits for the PATCH that records it. -/
def FollowedUp (h : Log) : Prop := Untouched h ∨ ¬ Unpatched h

/-- What has been sent and what the level still allows. -/
structure Bounded (E : Outlook) (ns : String) (v : CapacityView) (n : Nat) : Prop where
  located : ∀ ns', v.world.capacity.ns = some ns' → ns' = ns
  level : Level E ns v.world n
  current : ∀ cur, v.current = some cur → InFlight E ns v.world n cur
  patches : callCount Request.patches v.trace + n ≤ 4
  applies : callCount Request.applies v.trace + (n - 2) ≤ 3
  followed : (∀ cur, v.current = some cur → FollowedUp cur.done) →
    callCount Request.applies v.trace + (n - 2) ≤ 2

section Histories

variable {h : Log} {q : Request} {r : Response q}

theorem untouched_cons : Untouched (⟨q, r⟩ :: h) ↔ q.reads = true ∧ Untouched h :=
  List.forall_mem_cons

theorem unpatched_cons : Unpatched (⟨q, r⟩ :: h) ↔ q.patches = false ∧ Unpatched h :=
  List.forall_mem_cons

variable {p : Request → Bool} {w : World} {ch : Answer} {t : CapacityTrace}

theorem callCount_of_pos (hp : p q = true) : callCount p (.called w q ch :: t) = callCount p t + 1 :=
  List.countP_cons_of_pos hp

theorem callCount_of_neg (hp : p q = false) : callCount p (.called w q ch :: t) = callCount p t :=
  List.countP_cons_of_neg (by simpa [isCall] using hp)

theorem followedUp_cons (hq : q.reads = true) : FollowedUp (⟨q, r⟩ :: h) ↔ FollowedUp h := by
  unfold FollowedUp
  rw [untouched_cons, unpatched_cons]
  simp [hq, patches_of_reads hq]

theorem Outlook.Answers.at_snapshot {E : Outlook} {w' : World} (hq : Steadily E w h q)
    (hsame : Untouched h → w.capacity = w'.capacity ∧ w'.object.isSome = w.object.isSome)
    (hr : E.Answers w' q r) : E.Answers w q r := by
  cases hq with
  | now => exact hr
  | fixed hq => cases q <;> first | exact absurd hq Bool.false_ne_true | exact hr
  | read _ hu =>
    obtain ⟨hc, hp⟩ := hsame hu
    cases q with
    | getProvider ns name =>
      change ({ E with provider := r } : Outlook).verdict ns w.capacity = E.verdict ns w.capacity
      rw [hc]
      exact hr
    | getObject plural ns name =>
      obtain ⟨existing, rfl, hpresent, hshows⟩ := hr
      exact ⟨existing, rfl, hpresent.trans hp, hc ▸ hshows⟩
    | listMachines ns =>
      obtain ⟨machines, rfl, hconflict⟩ := hr
      exact ⟨machines, rfl, hc ▸ hconflict⟩
    | _ => exact hr
  | apply => exact hr
  | patch => exact hr

theorem exec_clock : (w.exec q ch).2.clock = w.clock := by
  cases q with
  | applyObject plural ns name desired =>
    rw [exec_apply]
    split <;> rfl
  | patchStatus p =>
    rw [exec_patch]
    split <;> rfl
  | _ => rfl

end Histories

namespace Bounded

variable {E : Outlook} {ns : String} {v : CapacityView} {n : Nat}
  {cur : Current Request Response World}

theorem moved (hv : Bounded E ns v n) {w : World} (hw : (steadyGuard E).move v w) :
    Bounded E ns (v.moved w) n := by
  obtain ⟨hc, hp, hclock⟩ := hw
  refine ⟨?_, hv.level.mono hc hp hclock, fun cur hcur => ?_, hv.patches, hv.applies, hv.followed⟩
  · change ∀ ns', w.capacity.ns = some ns' → ns' = ns
    rw [hc]
    exact hv.located
  · have hflight := hv.current cur hcur
    exact
      { clock := Int.le_trans hflight.clock hclock
        times := fun t ht => ⟨(hflight.times t ht).1, Int.le_trans (hflight.times t ht).2 hclock⟩
        capacity := fun hun => (hflight.capacity hun).trans hc.symm
        present := fun hu => hp.trans (hflight.present hu)
        level := hflight.level
        applied := hflight.applied }

theorem started (hv : Bounded E ns v n) (hidle : v.current = none) : Bounded E ns v.started n := by
  have hquiet := hv.followed fun cur hcur => by
    rw [hidle] at hcur
    cases hcur
  refine ⟨hv.located, hv.level, fun cur hcur => ?_, hv.patches, hv.applies, fun _ => hquiet⟩
  cases hcur
  exact
    { clock := Int.le_refl _
      times := fun _ ht => by cases ht
      capacity := fun _ => rfl
      present := fun _ => rfl
      level := fun _ => hv.level
      applied := fun _ hu => absurd (fun _ h => by cases h) hu }

theorem read (hv : Bounded E ns v n) (hcur : v.current = some cur) {q : Request}
    (hq : q.reads = true) (ch : Answer) : Bounded E ns (v.called capacitySystem cur q ch) n := by
  have hflight := hv.current cur hcur
  have hworld : (v.called capacitySystem cur q ch).world = v.world := exec_reads hq
  have hpatches : q.patches = false := patches_of_reads hq
  have happlies : q.applies = false := applies_of_reads hq
  have hcount : callCount Request.applies (v.called capacitySystem cur q ch).trace =
      callCount Request.applies v.trace := callCount_of_neg happlies
  refine ⟨hworld ▸ hv.located, hworld ▸ hv.level, fun cur' hcur' => ?_, ?_, hcount ▸ hv.applies,
    fun hrec => hcount ▸ hv.followed fun cur' hcur' => ?_⟩
  · cases hcur'
    rw [hworld]
    refine ⟨hflight.clock, fun t ht => ?_, ?_, ?_, ?_, ?_⟩
    · rcases List.mem_cons.mp ht with heq | ht
      · cases heq
        exact ⟨hflight.clock, Int.le_refl _⟩
      · exact hflight.times t ht
    · exact fun hun => hflight.capacity (unpatched_cons.mp hun).2
    · exact fun hu => hflight.present (untouched_cons.mp hu).2
    · exact fun hun => hflight.level (unpatched_cons.mp hun).2
    · exact fun hun hu => hflight.applied (unpatched_cons.mp hun).2 fun hu' =>
        hu (untouched_cons.mpr ⟨hq, hu'⟩)
  · rw [View.called, callCount_of_neg hpatches]
    exact hv.patches
  · rw [hcur] at hcur'
    cases hcur'
    exact (followedUp_cons hq).mp (hrec _ rfl)

theorem apply (hv : Bounded E ns v n) (hcur : v.current = some cur) {o : Observation}
    {plural ns' name : String} {desired : OwnedObject} (hns : cur.snapshot.capacity.ns = some ns')
    (ho : E.Observes ns' cur.snapshot.capacity cur.snapshot.object.isSome o)
    (hu : Untouched cur.done) (hwrite : (decision cur.snapshot.capacity o).write.isSome = true)
    (ch : Answer) :
    Bounded E ns (v.called capacitySystem cur (.applyObject plural ns' name desired) ch) n := by
  have hflight := hv.current cur hcur
  have hc : (v.world.exec (.applyObject plural ns' name desired) ch).2.capacity = v.world.capacity :=
    exec_capacity rfl
  have hclock : (v.world.exec (.applyObject plural ns' name desired) ch).2.clock = v.world.clock :=
    exec_clock
  obtain rfl : ns' = ns := hv.located ns' (hflight.capacity hu.unpatched ▸ hns)
  have hn : 3 ≤ n := (hflight.level hu.unpatched).three_le ho hwrite
  have hbefore : callCount Request.applies v.trace + (n - 2) ≤ 2 := by
    refine hv.followed fun cur' hcur' => ?_
    rw [hcur] at hcur'
    cases hcur'
    exact .inl hu
  refine ⟨hc ▸ hv.located, hv.level.mono_of_three_le hn hc, fun cur' hcur' => ?_, ?_, ?_,
    fun hrec => ?_⟩
  · cases hcur'
    exact
      { clock := hclock ▸ hflight.clock
        times := fun t ht => by
          rcases List.mem_cons.mp ht with heq | ht
          · cases heq
          · exact hclock ▸ hflight.times t ht
        capacity := fun hun => (hflight.capacity (unpatched_cons.mp hun).2).trans hc.symm
        present := fun hu' => by cases (untouched_cons.mp hu').1
        level := fun hun => hflight.level (unpatched_cons.mp hun).2
        applied := fun _ _ => hn }
  · exact hv.patches
  · rw [View.called, callCount_of_pos rfl]
    omega
  · rcases hrec _ rfl with hu' | hun
    · cases (untouched_cons.mp hu').1
    · exact absurd (unpatched_cons.mpr ⟨rfl, hu.unpatched⟩) hun

theorem capacity_of_patched {w : World} {o : Observation} {time : Fin 6 → Instant} {ch : Answer}
    (hr : (w.exec (.patchStatus (computedPatch w.capacity ns o time)) ch).1 = .ok ()) :
    (w.exec (.patchStatus (computedPatch w.capacity ns o time)) ch).2.capacity =
      reported w.capacity ns o time := by
  obtain ⟨rfl, _⟩ := writeAnswer_fst_eq_ok hr
  change ({ w.capacity with
    status := some ((computedPatch w.capacity ns o time).apply w.capacity.status) } : ScheduledCapacity) = _
  rw [computedPatch, statusPatch, buildStatusValue_apply]
  rfl

theorem patch (hv : Bounded E ns v n) (hcur : v.current = some cur) {o : Observation} {ns' : String}
    {time : Fin 6 → Instant} {ch : Answer} (hns : cur.snapshot.capacity.ns = some ns')
    (ho : E.Observes ns' cur.snapshot.capacity cur.snapshot.object.isSome o)
    (ha : Acted cur.snapshot.capacity o cur.done)
    (hdiffers : cur.snapshot.capacity.status ≠ some (computedStatus cur.snapshot.capacity ns' o time))
    (hr : (v.world.exec (.patchStatus (computedPatch cur.snapshot.capacity ns' o time)) ch).1 = .ok ()) :
    Bounded E ns (v.called capacitySystem cur
      (.patchStatus (computedPatch cur.snapshot.capacity ns' o time)) ch) (n - 1) := by
  have hflight := hv.current cur hcur
  have hsame := hflight.capacity ha.unpatched
  obtain rfl : ns' = ns := hv.located ns' (hsame ▸ hns)
  have hc : (v.world.exec (.patchStatus (computedPatch cur.snapshot.capacity ns' o time)) ch).2.capacity =
      reported cur.snapshot.capacity ns' o time := by
    rw [hsame] at hr ⊢
    exact capacity_of_patched hr
  have hobject :
      (v.world.exec (.patchStatus (computedPatch cur.snapshot.capacity ns' o time)) ch).2.object =
        v.world.object := exec_object rfl
  have hclock :
      (v.world.exec (.patchStatus (computedPatch cur.snapshot.capacity ns' o time)) ch).2.clock =
        v.world.clock := exec_clock
  have hpresent :
      (v.world.exec (.patchStatus (computedPatch cur.snapshot.capacity ns' o time)) ch).2.object.isSome =
        cur.snapshot.object.isSome ∨ 3 ≤ n ∧ o.target.writable = true := by
    by_cases hu : Untouched cur.done
    · exact .inl (by rw [hobject, hflight.present hu])
    · exact .inr ⟨hflight.applied ha.unpatched hu, ha.sent.resolve_left hu⟩
  have htimes := hflight.times o.now ha.now
  obtain ⟨hpos, hlevel⟩ := (hflight.level ha.unpatched).reported ho htimes.1 hdiffers hc
    (hclock ▸ htimes.2) hpresent
  have hcount : callCount Request.applies v.trace + (n - 1 - 2) ≤ 2 := by
    by_cases hu : Untouched cur.done
    · have hbefore := hv.followed fun cur' hcur' => by
        rw [hcur] at hcur'
        cases hcur'
        exact .inl hu
      omega
    · have hn := hflight.applied ha.unpatched hu
      have hbefore := hv.applies
      omega
  have hpatched : ∀ {r}, ¬ Unpatched
      (⟨.patchStatus (computedPatch cur.snapshot.capacity ns' o time), r⟩ :: cur.done) :=
    fun hun => by cases (unpatched_cons.mp hun).1
  refine ⟨?_, hlevel, fun cur' hcur' => ?_, ?_, ?_, fun _ => hcount⟩
  · intro ns'' hns''
    change (World.exec v.world _ ch).2.capacity.ns = some ns'' at hns''
    rw [hc] at hns''
    exact Option.some.inj (hns''.symm.trans hns)
  · cases hcur'
    exact
      { clock := hclock ▸ hflight.clock
        times := fun t ht => by
          rcases List.mem_cons.mp ht with heq | ht
          · cases heq
          · exact hclock ▸ hflight.times t ht
        capacity := fun hun => absurd hun hpatched
        present := fun hu => by cases (untouched_cons.mp hu).1
        level := fun hun => absurd hun hpatched
        applied := fun hun => absurd hun hpatched }
  · have hbefore := hv.patches
    rw [View.called, callCount_of_pos rfl]
    omega
  · exact Nat.le_succ_of_le hcount

theorem finished (hv : Bounded E ns v n) (hcur : v.current = some cur)
    {a : Except CapacityError (Option Observation)} (hend : FollowedUp cur.done) :
    Bounded E ns (v.finished cur a) n := by
  have hquiet := hv.followed fun cur' hcur' => by
    rw [hcur] at hcur'
    cases hcur'
    exact hend
  exact ⟨hv.located, hv.level, fun _ h => (by cases h), hv.patches, hv.applies, fun _ => hquiet⟩

/-- An apply whose PATCH is still to come leaves the level above 2. -/
theorem applies_le_two (hv : Bounded E ns v n) : callCount Request.applies v.trace ≤ 2 := by
  by_cases hall : ∀ cur, v.current = some cur → FollowedUp cur.done
  · have hcount := hv.followed hall
    omega
  · push Not at hall
    obtain ⟨cur, hcur, hopen⟩ := hall
    obtain ⟨hu, hun⟩ := not_or.mp hopen
    have hn := (hv.current cur hcur).applied (Classical.not_not.mp hun) hu
    have hcount := hv.applies
    omega

theorem called (hv : Bounded E ns v n) (hcur : v.current = some cur) {q : Request} {ch : Answer}
    (hq : Steadily E cur.snapshot cur.done q) (hr : E.Answers v.world q (v.world.exec q ch).1) :
    ∃ n, Bounded E ns (v.called capacitySystem cur q ch) n := by
  cases hq with
  | now => exact ⟨n, hv.read hcur rfl ch⟩
  | fixed hq => exact ⟨n, hv.read hcur (reads_of_fixed hq) ch⟩
  | read hq _ => exact ⟨n, hv.read hcur hq ch⟩
  | apply hns ho hu hwrite _ => exact ⟨n, hv.apply hcur hns ho hu hwrite ch⟩
  | patch hns ho ha hdiffers => exact ⟨n - 1, hv.patch hcur hns ho ha hdiffers hr⟩

end Bounded

theorem bounded_preserved (E : Outlook) (ns : String) :
    (steadyContract E).Preserves capacitySystem (steadyGuard E) fun v => ∃ n, Bounded E ns v n where
  move _ _ hv hw := hv.imp fun _ hv => hv.moved hw
  start v hv hidle _ := ⟨steadyContract_binds E v.world, hv.imp fun _ hv => hv.started hidle⟩
  call v cur q ch hv hcur hq hr := by
    obtain ⟨n, hv⟩ := hv
    have hflight := hv.current cur hcur
    refine ⟨hr.at_snapshot hq fun hu => ⟨hflight.capacity hu.unpatched, hflight.present hu⟩, ?_⟩
    exact hv.called hcur hq hr
  finish v cur a hv hcur hend := hv.imp fun _ hv => hv.finished hcur hend
  crash _ _ hG := hG.elim

/--
From any stored status, in surroundings that answer every reconcile alike and with a clock that does not go
back, the reconciler sends at most four PATCHes of the status and two applies, however often it runs.
-/
theorem patches_and_applies_bounded (E : Outlook) (w : World) (es : List (Event World Answer))
    (hes : (steadyGuard E).Allows capacitySystem (.idle w) es) :
    callCount Request.patches (capacitySystem.run (.idle w) es).trace ≤ 4 ∧
      callCount Request.applies (capacitySystem.run (.idle w) es).trace ≤ 2 := by
  have hstart : Bounded E (w.capacity.ns.getD "") ⟨w, [], none⟩ 4 :=
    { located := fun ns' hns => by
        rw [hns]
        rfl
      level := .four E _ w
      current := fun _ h => by cases h
      patches := Nat.le_refl 4
      applies := Nat.le_succ 2
      followed := fun _ => Nat.le_refl 2 }
  obtain ⟨n, hend⟩ := (bounded_preserved E _).run_idle ⟨4, hstart⟩ hes
  exact ⟨Nat.le_of_add_right_le hend.patches, hend.applies_le_two⟩

def sampleOutlook : Outlook where
  pinned _ _ _ := .ok "virtualmachinepools"
  provider := .ok (some (sampleProvider true))
  access _ _ _ := .ok (some true)
  owned := true
  drained := none
  conflict := false

def reportsActive : Option Json → Bool
  | some (.obj [("status", .obj [("active", .bool true)])]) => true
  | _ => false

theorem eq_of_reportsActive {provider : Option Json} (h : reportsActive provider = true) :
    provider = some (sampleProvider true) := by
  unfold reportsActive at h
  split at h
  · rfl
  · cases h

def answersSample (w : World) : Request → Bool
  | .pinnedKind group version kind => w.served group version kind == some "virtualmachinepools"
  | .getProvider _ _ => reportsActive w.provider
  | .accessReview verb group plural _ => w.access verb group plural == some true
  | .getObject _ _ _ => w.object.all fun object =>
      isOwnedBy object w.capacity && w.capacity.drainedPath.all fun path =>
        readI64At object.data path == none
  | .listMachines _ => w.machines.isEmpty
  | _ => true

theorem answers_sample {w : World} {q : Request} (h : answersSample w q = true) :
    sampleOutlook.Answers w q (w.exec q .ok).1 := by
  cases q with
  | pinnedKind group version kind =>
    have hserved : w.served group version kind = some "virtualmachinepools" := by
      simpa [answersSample] using h
    simp [Outlook.Answers, sampleOutlook, World.exec, readAnswer, hserved]
  | getProvider ns name =>
    have hprovider : w.provider = some (sampleProvider true) := eq_of_reportsActive h
    change ({ sampleOutlook with provider := .ok w.provider } : Outlook).verdict ns w.capacity = _
    rw [hprovider]
    rfl
  | accessReview verb group plural ns =>
    have haccess : w.access verb group plural = some true := by simpa [answersSample] using h
    simp [Outlook.Answers, sampleOutlook, World.exec, readAnswer, haccess]
  | getObject plural ns name =>
    refine ⟨w.object, rfl, rfl, fun object hobject => ?_⟩
    have hshown : isOwnedBy object w.capacity = true ∧
        ∀ path, w.capacity.drainedPath = some path → readI64At object.data path = none := by
      simpa [answersSample, hobject, Option.all_eq_true] using h
    exact ⟨hshown.1, hshown.2⟩
  | listMachines ns =>
    refine ⟨w.machines, rfl, fun node _ => ?_⟩
    have hnone : w.machines = [] := by simpa [answersSample] using h
    rw [hnone]
    rfl
  | isLeader => trivial
  | now => trivial
  | applyObject plural ns name desired => rfl
  | patchStatus patch => rfl

def steadyTests : Tests (steadyGuard sampleOutlook) where
  start _ := true
  call v q ch := ch == .ok && answersSample v.world q
  start_sound _ _ := trivial
  call_sound v q ch h := by
    obtain ⟨hch, hq⟩ := (Bool.and_eq_true _ _).mp h
    obtain rfl : ch = .ok := by simpa using hch
    exact answers_sample hq
  crash _ := false
  crash_sound _ h := by cases h

def sampleTriple : List (Event World Answer) := reconcileFor 17 ++ reconcileFor 17 ++ reconcileFor 17

/-- Three reconciles of the sample. -/
theorem sample_comes_to_rest :
    callCount Request.patches (capacitySystem.run (.idle sampleWorld) sampleTriple).trace ≤ 4 ∧
      callCount Request.applies (capacitySystem.run (.idle sampleWorld) sampleTriple).trace ≤ 2 :=
  patches_and_applies_bounded sampleOutlook sampleWorld _
    (Tests.allows (T := steadyTests) (by decide +kernel))

end FiveSpot.Capacity
