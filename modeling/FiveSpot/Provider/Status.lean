import FiveSpot.Data.MergePatch
import FiveSpot.Data.Scan
import FiveSpot.Provider.Calendar
import FiveSpot.SpotSchedule

/-!
# The status a provider publishes

`next_transition`, `compute_status` and `reconcile` of `providers/time_based.rs` and
`providers/capital_markets.rs`, which differ in `is_active_at` and in their texts. The status goes out
as a merge patch over whatever is stored, and the schedule consumers read the result.
-/

namespace FiveSpot.Provider

set_option autoImplicit false

open Calendar (toRfc3339)

def hourNanos : Int := 3600 * nanosPerSecond

theorem hourNanos_pos : 0 < hourNanos := by decide

def providerTransitionHorizonHours : Nat := 192
def providerFallbackRequeueSecs : Nat := 21600

/-- `next_transition`: the whole hours of UTC after `start` are asked in turn. -/
def nextTransition (isActiveAt : Instant → Except ProviderError Bool) (start : Instant) :
    Except ProviderError (Option Instant) := do
  let current ← isActiveAt start
  Scan.firstChange isActiveAt current hourNanos providerTransitionHorizonHours
    (Scan.floorTo hourNanos start + hourNanos)

structure Wording where
  openReason : String
  openMessage : String
  closedReason : String
  closedMessage : String

abbrev I64 := {n : Int // Json.FitsI64 n}

structure ProviderStatus where
  active : Bool
  lastTransitionTime : Option String
  deriving DecidableEq

def statusMembers (wording : Wording) (active : Bool) (generation : Option I64)
    (lastTransitionTime : String) : List (String × Json) :=
  [("active", .bool active),
    ("observedGeneration", (generation.map fun n => Json.int n.val).getD .null),
    ("lastTransitionTime", .str lastTransitionTime),
    ("conditions", .arr [.obj [("type", .str conditionTypeReady),
      ("status", .str conditionStatusTrue),
      ("reason", .str (if active then wording.openReason else wording.closedReason)),
      ("message", .str (if active then wording.openMessage else wording.closedMessage)),
      ("lastTransitionTime", .str lastTransitionTime)]])]

/-- `nextTransitionTime` is left out, not nulled, when there is no transition. -/
def nextMember (next : Option Instant) : List (String × Json) :=
  match next with
  | some next => [("nextTransitionTime", .str (toRfc3339 next))]
  | none => []

def transitionText (previous : Option ProviderStatus) (active : Bool) (now : Instant) : String :=
  if previous.map (fun status => status.active) ≠ some active then toRfc3339 now
  else (previous.bind fun status => status.lastTransitionTime).getD (toRfc3339 now)

def computeStatus (isActiveAt : Instant → Except ProviderError Bool) (wording : Wording)
    (previous : Option ProviderStatus) (generation : Option I64) (now : Instant) :
    Except ProviderError Json := do
  let active ← isActiveAt now
  let next ← nextTransition isActiveAt now
  return .obj (statusMembers wording active generation (transitionText previous active now) ++
    nextMember next)

namespace TimeBased

def wording : Wording where
  openReason := "WindowOpen"
  openMessage := "schedule window open"
  closedReason := "WindowClosed"
  closedMessage := "schedule window closed"

def nextTransition (zones : Zones) (spec : TimeBasedSpotScheduleSpec) :
    Instant → Except ProviderError (Option Instant) :=
  Provider.nextTransition (isActiveAt zones spec)

def computeStatus (zones : Zones) (spec : TimeBasedSpotScheduleSpec) :
    Option ProviderStatus → Option I64 → Instant → Except ProviderError Json :=
  Provider.computeStatus (isActiveAt zones spec) wording

end TimeBased

namespace CapitalMarkets

def wording : Wording where
  openReason := "SessionOpen"
  openMessage := "market session open"
  closedReason := "SessionClosed"
  closedMessage := "market session closed"

def nextTransition (zones : Zones) (spec : CapitalMarketsScheduleSpec) :
    Instant → Except ProviderError (Option Instant) :=
  Provider.nextTransition (isActiveAt zones spec)

def computeStatus (zones : Zones) (spec : CapitalMarketsScheduleSpec) :
    Option ProviderStatus → Option I64 → Instant → Except ProviderError Json :=
  Provider.computeStatus (isActiveAt zones spec) wording

end CapitalMarkets

namespace ProviderSpec

def kind : ProviderSpec → String
  | .timeBased _ => "TimeBasedSpotSchedule"
  | .capitalMarkets _ => "CapitalMarketsSchedule"

def wording : ProviderSpec → Wording
  | .timeBased _ => TimeBased.wording
  | .capitalMarkets _ => CapitalMarkets.wording

def nextTransition (zones : Zones) : ProviderSpec → Instant → Except ProviderError (Option Instant)
  | .timeBased spec => TimeBased.nextTransition zones spec
  | .capitalMarkets spec => CapitalMarkets.nextTransition zones spec

def computeStatus (zones : Zones) : ProviderSpec → Option ProviderStatus → Option I64 → Instant →
    Except ProviderError Json
  | .timeBased spec => TimeBased.computeStatus zones spec
  | .capitalMarkets spec => CapitalMarkets.computeStatus zones spec

variable {zones : Zones} {spec : ProviderSpec}

theorem nextTransition_eq :
    spec.nextTransition zones = Provider.nextTransition (spec.isActiveAt zones) := by
  cases spec <;> rfl

theorem computeStatus_eq :
    spec.computeStatus zones = Provider.computeStatus (spec.isActiveAt zones) spec.wording := by
  cases spec <;> rfl

end ProviderSpec

section Compute

variable {isActiveAt : Instant → Except ProviderError Bool} {wording : Wording} {now : Instant}

theorem nextTransition_eq_ok_iff {next : Option Instant} :
    nextTransition isActiveAt now = .ok next ↔ ∃ active, isActiveAt now = .ok active ∧
      Scan.firstChange isActiveAt active hourNanos providerTransitionHorizonHours
        (Scan.floorTo hourNanos now + hourNanos) = .ok next :=
  except_bind_eq_ok

variable (wording) in
theorem computeStatus_eq_ok {active : Bool} {next : Option Instant} (previous : Option ProviderStatus)
    (generation : Option I64) (hactive : isActiveAt now = .ok active)
    (hnext : nextTransition isActiveAt now = .ok next) :
    computeStatus isActiveAt wording previous generation now =
      .ok (.obj (statusMembers wording active generation (transitionText previous active now) ++
        nextMember next)) := by
  unfold computeStatus
  rw [hactive, hnext]
  rfl

theorem nextTransition_ok (hvalid : ∀ t, ∃ active, isActiveAt t = .ok active) (now : Instant) :
    ∃ next, nextTransition isActiveAt now = .ok next := by
  obtain ⟨active, hactive⟩ := hvalid now
  obtain ⟨next, hnext⟩ : ∃ next, Scan.firstChange isActiveAt active hourNanos
      providerTransitionHorizonHours (Scan.floorTo hourNanos now + hourNanos) = .ok next :=
    Scan.firstChange_ok hvalid _ _
  exact ⟨next, nextTransition_eq_ok_iff.mpr ⟨active, hactive, hnext⟩⟩

end Compute

section Merged

variable {wording : Wording} {active : Bool} {generation : Option I64} {text : String}
  {next : Option Instant}

theorem statusMembers_nodup :
    ((statusMembers wording active generation text ++ nextMember next).map Prod.fst).Nodup := by
  cases next <;> simp [statusMembers, nextMember]

theorem statusMembers_distinct :
    Json.Distinct (.obj (statusMembers wording active generation text ++ nextMember next)) := by
  rw [Json.Distinct]
  refine ⟨statusMembers_nodup, ?_⟩
  cases next <;> cases generation <;>
    simp [statusMembers, nextMember, Json.DistinctMembers, Json.Distinct]

def merged (wording : Wording) (active : Bool) (generation : Option I64) (text : String)
    (next : Option Instant) (stored : Json) : Json :=
  Json.mergePatch (.obj (statusMembers wording active generation text ++ nextMember next)) stored

variable {stored : Json}

theorem get?_merged (key : String) (value : Json)
    (hmem : (key, value) ∈ statusMembers wording active generation text ++ nextMember next)
    (hvalue : value.asObject? = none) :
    (merged wording active generation text next stored).get? key =
      if value.isNull then none else some value := by
  rw [merged, Json.mergePatch, Json.get?, Json.lookup_mergeMembers_of_mem statusMembers_nodup hmem,
    Json.mergePatch_of_asObject_eq_none hvalue]

theorem active_merged :
    (merged wording active generation text next stored).get? "active" = some (.bool active) := by
  rw [get?_merged "active" (.bool active) (by simp [statusMembers]) rfl]
  rfl

theorem observedGeneration_merged :
    (merged wording active generation text next stored).get? "observedGeneration" =
      generation.map fun n => .int n.val := by
  cases generation with
  | none =>
    rw [get?_merged "observedGeneration" .null (by simp [statusMembers]) rfl]
    rfl
  | some n =>
    rw [get?_merged "observedGeneration" (.int n.val) (by simp [statusMembers]) rfl]
    rfl

theorem lastTransitionTime_merged :
    (merged wording active generation text next stored).get? "lastTransitionTime" =
      some (.str text) := by
  rw [get?_merged "lastTransitionTime" (.str text) (by simp [statusMembers]) rfl]
  rfl

def readyCondition (reason message text : String) : Json :=
  .obj [("type", .str conditionTypeReady), ("status", .str conditionStatusTrue),
    ("reason", .str reason), ("message", .str message), ("lastTransitionTime", .str text)]

variable (wording active generation text next stored) in
theorem conditions_merged : ∃ reason message,
    (merged wording active generation text next stored).get? "conditions" =
      some (.arr [readyCondition reason message text]) := by
  refine ⟨if active then wording.openReason else wording.closedReason,
    if active then wording.openMessage else wording.closedMessage, ?_⟩
  rw [get?_merged "conditions" (.arr [readyCondition _ _ text])
    (by simp [statusMembers, readyCondition]; exact .inl ⟨rfl, rfl⟩) rfl]
  rfl

theorem nextTransitionTime_merged :
    (merged wording active generation text next stored).get? "nextTransitionTime" =
      (next.map fun t => .str (toRfc3339 t)).or (stored.get? "nextTransitionTime") := by
  cases next with
  | some t =>
    rw [get?_merged "nextTransitionTime" (.str (toRfc3339 t)) (by simp [statusMembers, nextMember]) rfl]
    rfl
  | none =>
    have hkey : "nextTransitionTime" ∉
        (statusMembers wording active generation text ++ nextMember none).map Prod.fst := by
      simp [statusMembers, nextMember]
    rw [merged, Json.mergePatch, Json.get?, Json.lookup_mergeMembers_of_notMem hkey,
      Json.lookup_asObject]
    rfl

theorem verdictFromStatus_merged :
    verdictFromStatus (some (merged wording active generation text next stored)) =
      if active then .active (generation.map Subtype.val)
      else .inactive (generation.map Subtype.val) := by
  obtain ⟨reason, message, hconditions⟩ :=
    conditions_merged wording active generation text next stored
  have hready : readyConditionBlocks (merged wording active generation text next stored) = false := by
    rw [readyConditionBlocks, hconditions]
    rfl
  have hgeneration : ((merged wording active generation text next stored).get?
      "observedGeneration").bind Json.asI64? = generation.map Subtype.val := by
    rw [observedGeneration_merged]
    cases generation with
    | none => rfl
    | some n => simp [Json.asI64?, n.property]
  simp only [verdictFromStatus, active_merged, hready, hgeneration, Option.bind_some, Json.asBool?,
    Bool.false_eq_true, if_false]

end Merged

section Contract

/--
Whatever was stored before, the consumers read from a patched status what the calendar says, under the
generation it was computed for.
-/
theorem provider_verdict (zones : Zones) (spec : ProviderSpec) (hvalid : spec.Valid zones)
    (previous : Option ProviderStatus) (stored : Json) (generation : Option I64) (now : Instant) :
    ∃ active patch, spec.isActiveAt zones now = .ok active ∧
      spec.computeStatus zones previous generation now = .ok patch ∧
      verdictFromStatus (some (Json.mergePatch patch stored)) =
        if active then .active (generation.map Subtype.val)
        else .inactive (generation.map Subtype.val) := by
  obtain ⟨active, hactive⟩ := hvalid now
  obtain ⟨next, hnext⟩ := nextTransition_ok hvalid now
  have hpatch := computeStatus_eq_ok spec.wording previous generation hactive hnext
  rw [← ProviderSpec.computeStatus_eq] at hpatch
  exact ⟨active, _, hactive, hpatch, verdictFromStatus_merged⟩

def sampleZones : Zones := fun name => if name = "UTC" then some ⟨fun _ => 0⟩ else none

def sampleOffice : ProviderSpec := .timeBased ⟨["mon-fri"], ["9-17"], "UTC", true⟩

theorem sampleOffice_parses : sampleOffice.Parses sampleZones := by
  refine ⟨⟨_, rfl⟩, ⟨[0, 1, 2, 3, 4], ?_⟩, ⟨[9, 10, 11, 12, 13, 14, 15, 16, 17], ?_⟩⟩ <;>
    decide +kernel

/-- A status that was stored on an earlier generation, outside the hours. -/
def sampleStored : Json := .obj [("active", .bool false), ("observedGeneration", .int 1),
  ("conditions", .arr [readyCondition "OutsideWindow" "closed" "1970-01-01T00:00:00+00:00"]),
  ("lastTransitionTime", .str "1970-01-01T00:00:00+00:00"),
  ("nextTransitionTime", .str "1970-01-01T09:00:00+00:00")]

/-- At ten o'clock the stored verdict is replaced by that of the calendar. -/
theorem provider_verdict_sample : ∃ patch,
    sampleOffice.computeStatus sampleZones (some ⟨false, some "1970-01-01T00:00:00+00:00"⟩)
        (some ⟨2, by decide⟩) (36000 * nanosPerSecond) = .ok patch ∧
      verdictFromStatus (some sampleStored) = .inactive (some 1) ∧
      verdictFromStatus (some (Json.mergePatch patch sampleStored)) = .active (some 2) := by
  obtain ⟨active, patch, hactive, hpatch, hverdict⟩ := provider_verdict sampleZones sampleOffice
    sampleOffice_parses.valid (some ⟨false, some "1970-01-01T00:00:00+00:00"⟩) sampleStored
    (some ⟨2, by decide⟩) (36000 * nanosPerSecond)
  have hopen : sampleOffice.isActiveAt sampleZones (36000 * nanosPerSecond) = .ok true := by
    decide +kernel
  obtain rfl : active = true := Except.ok.inj (hactive.symm.trans hopen)
  exact ⟨patch, hpatch, by decide +kernel, hverdict⟩

end Contract

section FixedPoint

def optionalText : Option Json → Option (Option String)
  | none | some .null => some none
  | some (.str s) => some (some s)
  | some _ => none

def isCondition (json : Json) : Bool :=
  ["type", "status", "lastTransitionTime", "reason", "message"].all fun key =>
    ((json.get? key).bind Json.asStr?).isSome

def areConditions : Option Json → Bool
  | none => true
  | some (.arr items) => items.all isCondition
  | some _ => false

def isGeneration : Option Json → Bool
  | none | some .null => true
  | some value => value.asI64?.isSome

/-- The derived deserializer of a status; a member of the wrong shape is an error. -/
def ProviderStatus.deserialize (json : Json) : Option ProviderStatus := do
  let _ ← json.asObject?
  let active ← ((json.get? "active").getD (.bool false)).asBool?
  if areConditions (json.get? "conditions") && isGeneration (json.get? "observedGeneration") then
    let lastTransitionTime ← optionalText (json.get? "lastTransitionTime")
    let _ ← optionalText (json.get? "nextTransitionTime")
    return { active, lastTransitionTime }
  else none

theorem deserialize_merged {wording : Wording} {active : Bool} {generation : Option I64}
    {text : String} {t : Instant} {stored : Json} :
    ProviderStatus.deserialize (merged wording active generation text (some t) stored) =
      some ⟨active, some text⟩ := by
  obtain ⟨reason, message, hconditions⟩ :=
    conditions_merged wording active generation text (some t) stored
  have hobject : ∃ members,
      (merged wording active generation text (some t) stored).asObject? = some members := by
    rw [merged, Json.mergePatch]
    exact ⟨_, rfl⟩
  obtain ⟨members, hobject⟩ := hobject
  have hshape : (areConditions ((merged wording active generation text (some t) stored).get?
      "conditions") && isGeneration ((merged wording active generation text (some t) stored).get?
      "observedGeneration")) = true := by
    rw [hconditions, observedGeneration_merged]
    cases generation with
    | none => rfl
    | some n =>
      have hfits : (Json.int n.val).asI64? = some n.val := if_pos n.property
      exact congrArg Option.isSome hfits
  have hnext : (merged wording active generation text (some t) stored).get? "nextTransitionTime" =
      some (.str (toRfc3339 t)) := nextTransitionTime_merged
  rw [ProviderStatus.deserialize, hobject, active_merged, hshape, lastTransitionTime_merged, hnext]
  rfl

theorem transitionText_of_same {active : Bool} {text : String} {now : Instant} :
    transitionText (some ⟨active, some text⟩) active now = text := by
  simp [transitionText]

theorem nextTransition_of_later {isActiveAt : Instant → Except ProviderError Bool}
    {now now' t : Instant} (hnext : nextTransition isActiveAt now = .ok (some t)) (hle : now ≤ now')
    (hlt : now' < t) (hagree : isActiveAt now' = isActiveAt now) :
    nextTransition isActiveAt now' = .ok (some t) := by
  obtain ⟨active, hactive, hscan⟩ := nextTransition_eq_ok_iff.mp hnext
  rw [Scan.firstChange_eq_some_iff hourNanos_pos] at hscan
  refine nextTransition_eq_ok_iff.mpr ⟨active, hagree.trans hactive, ?_⟩
  rw [Scan.firstChange_eq_some_iff hourNanos_pos]
  exact hscan.of_now_le hourNanos_pos hle hlt

/--
Between two transitions a second reconcile, which reads the status that the first one left, leaves it
as it is.
-/
theorem status_fixed_point (zones : Zones) (spec : ProviderSpec) (generation : Option I64)
    (previous : Option ProviderStatus) (stored : Json) (now now' t : Instant) (hle : now ≤ now')
    (hnext : spec.nextTransition zones now = .ok (some t)) (hlt : now' < t)
    (hagree : spec.isActiveAt zones now' = spec.isActiveAt zones now) :
    ∃ patch, spec.computeStatus zones previous generation now = .ok patch ∧
      ∃ status, ProviderStatus.deserialize (Json.mergePatch patch stored) = some status ∧
        ∃ patch', spec.computeStatus zones (some status) generation now' = .ok patch' ∧
          Json.mergePatch patch' (Json.mergePatch patch stored) = Json.mergePatch patch stored := by
  rw [ProviderSpec.nextTransition_eq] at hnext
  rw [ProviderSpec.computeStatus_eq]
  obtain ⟨active, hactive, -⟩ := nextTransition_eq_ok_iff.mp hnext
  have hnext' := nextTransition_of_later hnext hle hlt hagree
  refine ⟨_, computeStatus_eq_ok _ previous generation hactive hnext, _, deserialize_merged, _,
    computeStatus_eq_ok _ _ generation (hagree.trans hactive) hnext', ?_⟩
  rw [transitionText_of_same]
  exact Json.mergePatch_mergePatch _ statusMembers_distinct stored

theorem status_fixed_point_sample :
    sampleOffice.nextTransition sampleZones 0 = .ok (some (9 * hourNanos)) ∧
      ∃ patch, sampleOffice.computeStatus sampleZones none none 0 = .ok patch ∧
        ∃ status, ProviderStatus.deserialize (Json.mergePatch patch .null) = some status ∧
          ∃ patch', sampleOffice.computeStatus sampleZones (some status) none hourNanos = .ok patch' ∧
            Json.mergePatch patch' (Json.mergePatch patch .null) = Json.mergePatch patch .null := by
  have hnext : sampleOffice.nextTransition sampleZones 0 = .ok (some (9 * hourNanos)) := by
    decide +kernel
  exact ⟨hnext, status_fixed_point sampleZones sampleOffice none none .null 0 hourNanos (9 * hourNanos)
    (by decide) hnext (by decide) (by decide +kernel)⟩

end FixedPoint

end FiveSpot.Provider
