import FiveSpot.Capacity.Safety
import FiveSpot.Capacity.Settling

/-!
# The dates in the status

Each condition, the mirrored verdict and the written value have a time next to them. In every run it is
the time of the last change of what it stands next to, however often the status is patched in between
and whichever calls fail.
-/

namespace FiveSpot.Capacity

set_option autoImplicit false

open Effects Effects.Prog

/-- A part of the status and the time next to it. -/
structure DatedField where
  Value : Type
  decidable : DecidableEq Value
  value : Option ScheduledCapacityStatus → Value
  time : Option ScheduledCapacityStatus → Option Timestamp
  undated : time none = none

instance (F : DatedField) : DecidableEq F.Value := F.decidable

def storedCondition (type : String) (s : Option ScheduledCapacityStatus) : Option Condition :=
  s.bind fun s => s.conditions.find? fun stored => stored.type == type

def conditionField (type : String) : DatedField where
  Value := Option String
  decidable := inferInstance
  value s := (storedCondition type s).map fun stored => stored.status
  time s := (storedCondition type s).map fun stored => stored.lastTransitionTime
  undated := rfl

def verdictField : DatedField where
  Value := Option Bool
  decidable := inferInstance
  value s := (s.bind fun s => s.spotSchedule).bind fun s => s.active
  time s := (s.bind fun s => s.spotSchedule).bind fun s => s.lastTransitionTime
  undated := rfl

def writeField : DatedField where
  Value := Option Int
  decidable := inferInstance
  value s := s.bind fun s => s.writtenValue
  time s := s.bind fun s => s.lastWriteTime
  undated := rfl

def conditionTypes : List String :=
  [conditionTypeReady, conditionTypeSpotScheduleResolved, conditionTypeTargetResolved,
    conditionTypeCapacityWritten, conditionTypeHandbackComplete, conditionTypeHostGovernanceConflict]

def datedFields : List DatedField := conditionTypes.map conditionField ++ [verdictField, writeField]

section History

def readings (h : Log) : List Instant :=
  h.filterMap fun x =>
    match x with
    | ⟨.now, now⟩ => some now
    | _ => none

/-- The same of a trace: what was read since the last start. -/
def clockReadings : CapacityTrace → List Instant
  | [] => []
  | .started _ :: _ => []
  | .called w .now _ :: t => w.clock :: clockReadings t
  | _ :: t => clockReadings t

/-- The value the applied patches of a trace have left, and what the clock said to the reconcile that
changed it last. -/
def lastChange (F : DatedField) : CapacityTrace → F.Value × Option (List Instant)
  | [] => (F.value none, none)
  | .called w (.patchStatus p) c :: t =>
      if c.applied ∧ F.value (some (p.apply w.capacity.status)) ≠ (lastChange F t).1 then
        (F.value (some (p.apply w.capacity.status)), some (clockReadings t))
      else lastChange F t
  | _ :: t => lastChange F t

/-- The status holds the value, and next to it a time of its last change. -/
structure Dates (F : DatedField) (t : CapacityTrace) (s : Option ScheduledCapacityStatus) : Prop where
  value : F.value s = (lastChange F t).1
  never : (lastChange F t).2 = none → F.time s = none
  changed : ∀ times, (lastChange F t).2 = some times → ∃ now ∈ times, F.time s = some (.at now)

end History

section Contract

/-- A patch leaves the time where it leaves the value, and else sets a time that was read. -/
def Redates (F : DatedField) (s : Option ScheduledCapacityStatus) (p : StatusPatch)
    (times : List Instant) : Prop :=
  if F.value (some (p.apply s)) = F.value s then F.time (some (p.apply s)) = F.time s
  else ∃ now ∈ times, F.time (some (p.apply s)) = some (.at now)

inductive Stamps (c : ScheduledCapacity) : Log → Request → Prop where
  | aside {h : Log} {q : Request} : q.patches = false → Stamps c h q
  | patch {h : Log} {p : StatusPatch} : Unpatched h →
      (∀ F ∈ datedFields, Redates F c.status p (readings h)) → Stamps c h (.patchStatus p)

variable {α β : Type} {c : ScheduledCapacity} {h h' : Log} {ns : String} {now : Instant}

/-- `x` sends no status patch. -/
abbrev Unpatching (x : Reconcile α) : Prop := x.run.Uses fun q => q.patches = false

/-- What the reconcile has done so far, and a time it has read. -/
structure Timed (now : Instant) (h : Log) : Prop where
  unpatched : Unpatched h
  read : now ∈ readings h

theorem readings_cons_of_ne {q : Request} {x : Response q} (hq : q ≠ .now) :
    readings (⟨q, x⟩ :: h) = readings h := by
  cases q <;> first | rfl | exact absurd rfl hq

theorem mem_readings_of_grown {P : Request → Prop} (hh : History.Grown P h h')
    (hnow : now ∈ readings h) : now ∈ readings h' := by
  obtain ⟨l, rfl, -⟩ := hh
  unfold readings at hnow ⊢
  rw [List.filterMap_append]
  exact List.mem_append_right _ hnow

theorem Timed.grown (ht : Timed now h)
    (hh : History.Grown (fun q => q.patches = false) h h') : Timed now h' :=
  ⟨hh.forall ht.unpatched, mem_readings_of_grown hh ht.read⟩

theorem Timed.then {x : Reconcile α} {f : α → Reconcile β} {Q : β → Log → Prop} (ht : Timed now h)
    (hx : Unpatching x) (hf : ∀ a h', Timed now h' → Keeps (Stamps c) (f a) h' Q fun _ _ => True) :
    Keeps (Stamps c) (x >>= f) h Q fun _ _ => True := by
  have hx : Keeps (Stamps c) x h (fun _ h' => History.Grown (fun q => q.patches = false) h h')
      fun _ h' => History.Grown (fun q => q.patches = false) h h' :=
    ⟨uses_run_meets hx fun _ _ _ hq => .aside hq⟩
  exact hx.bind (fun a h' hh => hf a h' (ht.grown hh)) fun _ _ _ => trivial

theorem unpatching_orKube (x : Except KubeError α) : Unpatching (orKube x) := by
  cases x <;> trivial

theorem unpatching_check (x : Except CapacityError α) : Unpatching (check x) := by
  cases x <;> trivial

theorem unpatching_orPath (x : Except CapacityPathError α) : Unpatching (orPath x) := by
  cases x <;> trivial

theorem unpatching_call {q : Request} (hq : q.patches = false) : Unpatching (call q) :=
  (uses_run_ask q).mpr hq

theorem unpatching_of_looksUp {x : Reconcile α} (hx : LooksUp x) : Unpatching x :=
  hx.mono fun _ hq => patches_of_reads (reads_of_looksUp hq)

theorem unpatching_resolveVerdict : Unpatching (resolveVerdict ns c) := by
  unfold resolveVerdict resolveSpotSchedule
  refine uses_run_bind (uses_run_bind (uses_run_bind (unpatching_call rfl) fun _ => trivial)
    fun installed => ?_) fun verdict => ?_
  · cases installed with
    | error e => trivial
    | ok _ =>
      refine uses_run_bind (unpatching_call rfl) fun answer => ?_
      rcases answer with e | _ | object <;> trivial
  · cases verdict <;> trivial

theorem unpatching_resolveTarget : Unpatching (resolveTarget ns c) := by
  unfold resolveTarget
  dsimp only
  split
  · trivial
  · refine uses_run_bind (unpatching_call rfl) fun answer => ?_
    cases answer with
    | error e => trivial
    | ok plural =>
      refine uses_run_bind (unpatching_of_looksUp (looksUp_forbiddenVerb _)) fun verb => ?_
      cases verb with
      | some verb => trivial
      | none =>
        refine uses_run_bind (unpatching_call rfl) fun existing => ?_
        refine uses_run_bind (unpatching_orKube existing) fun object => ?_
        cases object with
        | none => trivial
        | some object =>
          change Unpatching (if !isOwnedBy object c then _ else _)
          split <;> trivial

theorem unpatching_detectConflict : Unpatching (detectHostGovernanceConflict ns c) := by
  unfold detectHostGovernanceConflict
  split
  · trivial
  · refine uses_run_bind (unpatching_call rfl) fun machines => ?_
    exact uses_run_bind (unpatching_orKube machines) fun _ => trivial

theorem unpatching_applyOwnedObject {target : TargetResolution} {value : Int} :
    Unpatching (applyOwnedObject ns c target value) := by
  unfold applyOwnedObject
  split
  · trivial
  · refine uses_run_bind (unpatching_check _) fun desired => ?_
    exact uses_run_bind (unpatching_call rfl) unpatching_orKube

/-- The observation is dated by the first reading of the clock. -/
theorem keeps_observe_timed (hh : Unpatched h) :
    Keeps (Stamps c) (observe ns c) h (fun o h' => Timed o.now h') fun _ _ => True := by
  have hnow : Stamps c h .now := .aside rfl
  refine keeps_ask_bind hnow fun now => ?_
  have htimed : Timed now (⟨.now, now⟩ :: h) := by
    refine ⟨List.forall_mem_cons.mpr ⟨rfl, hh⟩, ?_⟩
    exact List.mem_filterMap.mpr ⟨⟨.now, now⟩, List.mem_cons_self, rfl⟩
  refine htimed.then (unpatching_orPath _) fun _ h₁ ht₁ => ?_
  have hrest : ∀ h' : Log, Timed now h' →
      Keeps (Stamps c)
        (do
          let verdict ← resolveVerdict ns c
          let target ← resolveTarget ns c
          let conflict ← detectHostGovernanceConflict ns c
          let handbackTimeout ← check (parseHandbackTimeout c)
          return ({ now, verdict, target, conflict, handbackTimeout,
                    observedDrained := readDrained target c.drainedPath } : Observation))
        h' (fun o h' => Timed o.now h') fun _ _ => True := by
    intro h' ht
    refine ht.then unpatching_resolveVerdict fun verdict h₂ ht₂ => ?_
    refine ht₂.then unpatching_resolveTarget fun target h₃ ht₃ => ?_
    refine ht₃.then unpatching_detectConflict fun conflict h₄ ht₄ => ?_
    exact ht₄.then (unpatching_check _) fun timeout h₅ ht₅ => keeps_pure ht₅
  split
  · exact ht₁.then (unpatching_orPath _) fun _ => hrest
  · exact hrest h₁ ht₁

/-- Conditions of these types, each with a time that was read. -/
structure Fresh (types : List String) (computed : List Condition) (h : Log) : Prop where
  types : computed.map Condition.type = types
  times : ∀ condition ∈ computed, ∃ now ∈ readings h, condition.lastTransitionTime = .at now

theorem keeps_newCondition_bind {type reason message : String} {status : Bool} {types : List String}
    {computed : List Condition} {f : Condition → Reconcile β} {Q : β → Log → Prop}
    (ht : Timed now h) (hf : Fresh types computed h)
    (hthen : ∀ condition h', Timed now h' → Fresh (types ++ [type]) (computed ++ [condition]) h' →
      Keeps (Stamps c) (f condition) h' Q fun _ _ => True) :
    Keeps (Stamps c) (newCondition type status reason message >>= f) h Q fun _ _ => True := by
  have hnow : Stamps c h .now := .aside rfl
  refine keeps_ask_bind hnow fun read => ?_
  have hgrown : History.Grown (fun q => q.patches = false) h (⟨.now, read⟩ :: h) :=
    .cons (.refl h) (by rfl) read
  refine hthen _ _ (ht.grown hgrown) ⟨by rw [List.map_append, hf.types]; rfl, fun condition hc => ?_⟩
  rcases List.mem_append.mp hc with hold | hnew
  · obtain ⟨time, htime, heq⟩ := hf.times condition hold
    exact ⟨time, mem_readings_of_grown hgrown htime, heq⟩
  · obtain rfl := List.mem_singleton.mp hnew
    exact ⟨read, List.mem_filterMap.mpr ⟨⟨.now, read⟩, List.mem_cons_self, rfl⟩, rfl⟩

theorem keeps_computeConditions_timed {d : CapacityDecision} {verdict : SpotScheduleVerdict}
    {target : TargetResolution} {written : Option Int} (ht : Timed now h) :
    Keeps (Stamps c) (computeConditions c d verdict target written) h
      (fun computed h' => Timed now h' ∧ Fresh conditionTypes computed h') fun _ _ => True := by
  have hnone : Fresh [] [] h := ⟨rfl, fun _ hmem => by cases hmem⟩
  unfold computeConditions
  refine keeps_newCondition_bind ht hnone fun _ _ ht hready => ?_
  refine keeps_newCondition_bind ht hready fun _ _ ht hresolved => ?_
  refine keeps_newCondition_bind ht hresolved fun _ _ ht htarget => ?_
  refine keeps_newCondition_bind ht htarget fun _ _ ht hwritten => ?_
  refine keeps_newCondition_bind ht hwritten fun _ _ ht hcomplete => ?_
  exact keeps_newCondition_bind ht hcomplete fun _ _ ht hall => keeps_pure ⟨ht, hall⟩

end Contract

section Redating

variable {c : ScheduledCapacity} {h : Log} {d : CapacityDecision} {observed : ObservedState}
  {conditions computed : List Condition} {verdict : SpotScheduleVerdict} {times : List Instant}

theorem redates_verdictField (hnow : observed.now ∈ times) :
    Redates verdictField c.status (buildStatusValue c d observed conditions verdict) times := by
  have hvalue : verdictField.value
      (some ((buildStatusValue c d observed conditions verdict).apply c.status)) = verdict.isActive? :=
    buildStatusValue_active ..
  have hstored : verdictField.value c.status = c.lastKnownActive := rfl
  have htime : verdictField.time
      (some ((buildStatusValue c d observed conditions verdict).apply c.status)) =
        spotScheduleTransitionTime c verdict observed.now := by
    simp [verdictField, buildStatusValue, StatusPatch.apply, SpotSchedulePatch.apply]
  unfold Redates
  rw [hvalue, hstored, htime, spotScheduleTransitionTime]
  split
  · rename_i hsame
    have hsame : c.lastKnownActive = verdict.isActive? := hsame.symm
    rw [if_pos hsame]
    rfl
  · rename_i hdiffers
    have hdiffers : c.lastKnownActive ≠ verdict.isActive? := Ne.symm hdiffers
    rw [if_neg hdiffers]
    exact ⟨_, hnow, rfl⟩

theorem redates_writeField (hnow : observed.now ∈ times)
    (hwritten : observed.written = none → c.writtenValue = none) :
    Redates writeField c.status (buildStatusValue c d observed conditions verdict) times := by
  have hvalue : writeField.value
      (some ((buildStatusValue c d observed conditions verdict).apply c.status)) = observed.written :=
    buildStatusValue_writtenValue ..
  have hstored : writeField.value c.status = c.writtenValue := rfl
  have htime : writeField.time
      (some ((buildStatusValue c d observed conditions verdict).apply c.status)) =
        lastWriteTime c observed.written observed.now := by
    simp [writeField, buildStatusValue, StatusPatch.apply]
  unfold Redates
  rw [hvalue, hstored, htime, lastWriteTime]
  split
  · rename_i hsame
    rw [if_neg fun hchanged => hchanged.1 hsame]
    rfl
  · rename_i hdiffers
    have hsome : observed.written.isSome = true := by
      cases hvalue : observed.written with
      | some value => rfl
      | none => exact absurd (hvalue.trans (hwritten hvalue).symm) hdiffers
    rw [if_pos ⟨hdiffers, hsome⟩]
    exact ⟨_, hnow, rfl⟩

/-- A condition of a computed type is found with the time kept for it. -/
theorem storedCondition_merged {type : String} (hf : Fresh conditionTypes computed h)
    (htype : type ∈ conditionTypes) (previous : List Condition) :
    ∃ condition ∈ computed, condition.type = type ∧
      (mergeConditionTimestamps computed previous).find? (fun stored => stored.type == type) =
        some (keptTime previous condition) := by
  have hmem : type ∈ computed.map Condition.type := hf.types ▸ htype
  obtain ⟨condition, hcondition, rfl⟩ := List.mem_map.mp hmem
  refine ⟨condition, hcondition, rfl, ?_⟩
  rw [mergeConditionTimestamps_eq_map]
  exact find?_keptTime (by rw [hf.types]; decide) hcondition

theorem redates_conditionField {type : String} (hf : Fresh conditionTypes computed h)
    (htype : type ∈ conditionTypes) :
    Redates (conditionField type) c.status (buildStatusValue c d observed
      (mergeConditionTimestamps computed (c.status.elim [] fun s => s.conditions)) verdict)
      (readings h) := by
  obtain ⟨condition, hcondition, rfl, hfind⟩ := storedCondition_merged hf htype
    (c.status.elim [] fun s => s.conditions)
  have hafter : storedCondition condition.type (some ((buildStatusValue c d observed
      (mergeConditionTimestamps computed (c.status.elim [] fun s => s.conditions)) verdict).apply
        c.status)) = some (keptTime (c.status.elim [] fun s => s.conditions) condition) := hfind
  have hbefore : storedCondition condition.type c.status =
      (c.status.elim [] fun s => s.conditions).find? fun stored => stored.type == condition.type := by
    cases c.status <;> rfl
  unfold Redates conditionField
  simp only [hafter, hbefore, Option.map_some, keptTime]
  cases hstored : (c.status.elim [] fun s => s.conditions).find?
      fun stored => stored.type == condition.type with
  | none => simpa using hf.times condition hcondition
  | some stored =>
    by_cases hstatus : stored.status = condition.status
    · simp [hstatus]
    · simpa [hstatus, Ne.symm hstatus] using hf.times condition hcondition

theorem redates_buildStatusValue (hf : Fresh conditionTypes computed h)
    (hnow : observed.now ∈ readings h) (hwritten : observed.written = none → c.writtenValue = none)
    {F : DatedField} (hF : F ∈ datedFields) :
    Redates F c.status (buildStatusValue c d observed
      (mergeConditionTimestamps computed (c.status.elim [] fun s => s.conditions)) verdict)
      (readings h) := by
  rcases List.mem_append.mp hF with hcondition | hother
  · obtain ⟨type, htype, rfl⟩ := List.mem_map.mp hcondition
    exact redates_conditionField hf htype
  · rcases List.mem_cons.mp hother with rfl | hother
    · exact redates_verdictField hnow
    · obtain rfl := List.mem_singleton.mp hother
      exact redates_writeField hnow hwritten

theorem keeps_patchStatus_timed {ns : String} {target : TargetResolution}
    {written observedDrained : Option Int} {now : Instant} (ht : Timed now h)
    (hwritten : written = none → c.writtenValue = none) :
    Keeps (Stamps c) (patchStatus ns c d verdict target written observedDrained now) h
      (fun _ _ => True) fun _ _ => True := by
  refine (keeps_computeConditions_timed ht).bind (fun computed h' hc => ?_) fun _ _ _ => trivial
  obtain ⟨ht', hf⟩ := hc
  dsimp only
  split
  · exact keeps_pure trivial
  · refine keeps_ask_bind (.patch ht'.unpatched fun F hF => ?_) fun answer => ?_
    · exact redates_buildStatusValue hf ht'.read hwritten hF
    · cases answer with
      | error e => exact keeps_throw trivial
      | ok _ => exact keeps_pure trivial

/-- A value that is recorded is never forgotten. -/
theorem keeps_writeDecided_recorded {ns : String} {target : TargetResolution} {now : Instant}
    (ht : Timed now h) :
    Keeps (Stamps c) (writeDecided ns c target d) h
      (fun written h' => Timed now h' ∧ (written = none → c.writtenValue = none)) fun _ _ => True := by
  unfold writeDecided
  split
  · refine ht.then unpatching_applyOwnedObject fun _ h' ht' => ?_
    exact keeps_pure ⟨ht', fun hnone => by cases hnone⟩
  · exact keeps_pure ⟨ht, id⟩

theorem keeps_reconcileObserved_stamps :
    Keeps (Stamps c) (reconcileObserved c) [] (fun _ _ => True) fun _ _ => True := by
  have hleader : Stamps c [] .isLeader := .aside rfl
  refine keeps_ask_bind hleader fun leader => ?_
  cases leader with
  | false => exact keeps_pure trivial
  | true =>
    rw [if_neg (by decide)]
    split
    · exact keeps_throw trivial
    · have hstart : Unpatched [⟨.isLeader, true⟩] := List.forall_mem_singleton.mpr rfl
      refine (keeps_observe_timed hstart).bind (fun o h₁ ht => ?_) fun _ _ _ => trivial
      refine (keeps_writeDecided_recorded ht).bind (fun written h₂ hw => ?_) fun _ _ _ => trivial
      exact (keeps_patchStatus_timed hw.1 hw.2).bind (fun _ _ _ => keeps_pure trivial) fun _ _ _ => trivial

end Redating

def stampContract : Contract Request Response World (Except CapacityError (Option Observation)) where
  answers _ _ _ := True
  permits w := Stamps w.capacity
  returns _ _ _ := True

theorem stampContract_binds (w : World) : stampContract.Binds w [] (capacitySystem.program w) := by
  refine (keeps_reconcileObserved_stamps (c := w.capacity)).meets.mono fun _ _ _ => ?_
  trivial

/-- What the trace tells of a field agrees with the status, and the reconcile in flight with both. -/
structure DatesAll (F : DatedField) (v : CapacityView) : Prop where
  abreast : Abreast v
  dates : Dates F v.trace v.world.capacity.status
  read : ∀ cur, v.current = some cur → clockReadings v.trace = readings cur.done

section DatesAll

variable {F : DatedField} {v : CapacityView} {cur : Current Request Response World} {q : Request}
  {ch : Answer} {t : CapacityTrace} {s : Option ScheduledCapacityStatus}

theorem lastChange_called (hq : q.patches = false) (w : World) :
    lastChange F (.called w q ch :: t) = lastChange F t := by
  cases q <;> first | rfl | cases hq

theorem clockReadings_called (w : World) (h : Log) (heq : clockReadings t = readings h) :
    clockReadings (.called w q ch :: t) = readings (⟨q, (w.exec q ch).1⟩ :: h) := by
  by_cases hq : q = .now
  · subst hq
    exact congrArg (w.clock :: ·) heq
  · rw [readings_cons_of_ne hq, ← heq]
    cases q <;> first | rfl | exact absurd rfl hq

theorem Dates.congr {t' : CapacityTrace} (h : Dates F t s) (heq : lastChange F t' = lastChange F t) :
    Dates F t' s where
  value := heq ▸ h.value
  never := heq ▸ h.never
  changed := heq ▸ h.changed

/-- A patch that is applied to the status it was computed from. -/
theorem Dates.patched {w : World} {p : StatusPatch} (h : Dates F t w.capacity.status)
    (hch : ch.applied = true) (hp : Redates F w.capacity.status p (clockReadings t)) :
    Dates F (.called w (.patchStatus p) ch :: t) (some (p.apply w.capacity.status)) := by
  unfold Redates at hp
  by_cases hvalue : F.value (some (p.apply w.capacity.status)) = F.value w.capacity.status
  · rw [if_pos hvalue] at hp
    have hsame : lastChange F (.called w (.patchStatus p) ch :: t) = lastChange F t := by
      simp [lastChange, hvalue, h.value]
    refine ⟨?_, fun hnone => ?_, fun times htimes => ?_⟩
    · rw [hsame, hvalue, h.value]
    · rw [hsame] at hnone
      rw [hp, h.never hnone]
    · rw [hsame] at htimes
      rw [hp]
      exact h.changed times htimes
  · rw [if_neg hvalue] at hp
    have hchange : lastChange F (.called w (.patchStatus p) ch :: t) =
        (F.value (some (p.apply w.capacity.status)), some (clockReadings t)) := by
      simp [lastChange, hch, ← h.value, hvalue]
    refine ⟨by rw [hchange], fun hnone => ?_, fun times htimes => ?_⟩
    · rw [hchange] at hnone
      cases hnone
    · rw [hchange] at htimes
      cases htimes
      exact hp

theorem DatesAll.called (hv : DatesAll F v) (hF : F ∈ datedFields) (hcur : v.current = some cur)
    (hq : Stamps cur.snapshot.capacity cur.done q) :
    DatesAll F (v.called capacitySystem cur q ch) := by
  refine ⟨hv.abreast.called hcur, ?_, ?_⟩
  · change Dates F (.called v.world q ch :: v.trace) (v.world.exec q ch).2.capacity.status
    cases hq with
    | aside hq =>
      rw [exec_capacity hq]
      exact hv.dates.congr (lastChange_called hq _)
    | patch hun hredates =>
      rw [exec_patch]
      have hstored := hv.abreast cur hcur hun
      have hp := hredates F hF
      rw [hstored, ← hv.read cur hcur] at hp
      by_cases happlied : ch.applied = true
      · rw [if_pos happlied]
        exact hv.dates.patched happlied hp
      · rw [if_neg happlied]
        exact hv.dates.congr (by simp [lastChange, happlied])
  · rintro cur' ⟨⟩
    exact clockReadings_called v.world cur.done (hv.read cur hcur)

end DatesAll

theorem datesAll_preserved {F : DatedField} (hF : F ∈ datedFields) :
    stampContract.Preserves capacitySystem ownStatusGuard (DatesAll F) where
  move v w hv hw := by
    refine ⟨hv.abreast.moved hw, ?_, hv.read⟩
    change Dates F (.moved v.world w :: v.trace) w.capacity.status
    rw [hw]
    exact hv.dates.congr rfl
  start v hv _ _ := by
    refine ⟨stampContract_binds v.world, .started, hv.dates.congr rfl, ?_⟩
    rintro cur ⟨⟩
    rfl
  call v cur q ch hv hcur hq _ := ⟨trivial, hv.called hF hcur hq⟩
  finish v cur a hv _ _ := ⟨.finished, hv.dates.congr rfl, by rintro cur' ⟨⟩⟩
  crash v hv _ := ⟨.restarted, hv.dates.congr rfl, by rintro cur' ⟨⟩⟩

/--
From a new resource, in every run in which only the controller writes the status: next to each condition, to
the mirrored verdict and to the written value stands a time that the reconcile read which changed it last,
and none if it was never changed.
-/
theorem times_date_last_change (F : DatedField) (hF : F ∈ datedFields) (w : World)
    (hnew : w.capacity.status = none) (es : List (Event World Answer))
    (hes : ownStatusGuard.Allows capacitySystem (.idle w) es) :
    Dates F (capacitySystem.run (.idle w) es).trace
      (capacitySystem.run (.idle w) es).world.capacity.status := by
  have hinit : DatesAll F (⟨w, [], none⟩ : CapacityView) := by
    refine ⟨fun cur h => (by cases h), ⟨?_, fun _ => ?_, fun times h => (by cases h)⟩,
      fun cur h => (by cases h)⟩
    · rw [hnew]
      rfl
    · rw [hnew]
      exact F.undated
  exact ((datesAll_preserved hF).run_idle hinit hes).dates

def sampleHandedBack : List (Event World Answer) :=
  reconcileFor 17 ++
    .move { setProvider false sampleActive.world with clock := 60 } :: reconcileFor 17

theorem sampleHandedBack_dates :
    (capacitySystem.run (.idle sampleWorld) sampleHandedBack).world.capacity.writtenValue = some 0 ∧
      Dates writeField (capacitySystem.run (.idle sampleWorld) sampleHandedBack).trace
        (capacitySystem.run (.idle sampleWorld) sampleHandedBack).world.capacity.status := by
  refine ⟨by decide +kernel, times_date_last_change writeField (by simp [datedFields]) sampleWorld rfl _ ?_⟩
  refine Guard.allows_append.mpr ⟨?_, ?_, ?_⟩
  · exact Guard.allows_of_unmoved (fun _ => trivial) (fun _ _ _ => trivial) (fun _ => trivial) rfl
  · rfl
  · exact Guard.allows_of_unmoved (fun _ => trivial) (fun _ _ _ => trivial) (fun _ => trivial) rfl

end FiveSpot.Capacity
