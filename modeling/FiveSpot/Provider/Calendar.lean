import FiveSpot.Common
import FiveSpot.Data.Calendar

/-!
# When a provider is active

The day and hour ranges of `crd.rs` and the two `is_active_at` of `providers/`. A provider reads a
wall clock in the time zone of its spec; the time zone database is a parameter, and nothing is assumed
about the offsets it gives.
-/

namespace FiveSpot.Provider

set_option autoImplicit false

open Calendar (LocalTime localTime)

section Ranges

/-- The numbers from `first` to `last`, or through `max` and on from 0 when `last` comes first. -/
def wrapRange (max first last : Nat) : List Nat :=
  if first ≤ last then List.range' first (last + 1 - first)
  else List.range' first (max + 1 - first) ++ List.range (last + 1)

theorem mem_wrapRange_iff {max first last n : Nat} : n ∈ wrapRange max first last ↔
    if first ≤ last then first ≤ n ∧ n ≤ last else (first ≤ n ∧ n ≤ max) ∨ n ≤ last := by
  unfold wrapRange
  split <;> simp <;> omega

def dayMapping : List (String × Nat) :=
  [("mon", 0), ("tue", 1), ("wed", 2), ("thu", 3), ("fri", 4), ("sat", 5), ("sun", 6)]

def dayNumber (day : String) : Except String Nat :=
  match dayMapping.find? fun entry => entry.1 == day with
  | some (_, number) => .ok number
  | none => .error ("Invalid day: " ++ day)

def parseDayPart (part : String) : Except String (List Nat) := do
  let part := Text.trim part
  if part.toList.contains '-' then
    match Text.split '-' part with
    | [start, stop] =>
        let first ← dayNumber (Text.trim start)
        let last ← dayNumber (Text.trim stop)
        return wrapRange 6 first last
    | _ => throw ("Invalid day range: " ++ part)
  else return [← dayNumber part]

def maxHour : Nat := 23

def hourNumber (hour : String) : Except String Nat :=
  match Text.parseU8 (Text.trim hour) with
  | some number => .ok number
  | none => .error ("Invalid hour: " ++ hour)

def parseHourPart (part : String) : Except String (List Nat) := do
  let part := Text.trim part
  if part.toList.contains '-' && !Text.startsWith "-" part then
    match Text.split '-' part with
    | [start, stop] =>
        let first ← hourNumber start
        let last ← hourNumber stop
        if first > maxHour || last > maxHour then throw ("Hours must be 0-23, got: " ++ part)
        return wrapRange maxHour first last
    | _ => throw ("Invalid hour range: " ++ part)
  else
    let hour ← hourNumber part
    if hour > maxHour then throw ("Hour must be 0-23, got: " ++ toString hour)
    return [hour]

/-- The parts of all specs in turn, up to the first that fails. -/
def parseRanges (parsePart : String → Except String (List Nat)) (specs : List String) :
    Except String (List Nat) :=
  (specs.flatMap (Text.split ',')).foldlM (fun result part => return result ++ (← parsePart part)) []

def parseDayRanges (daySpecs : List String) : Except String (List Nat) :=
  parseRanges parseDayPart daySpecs

def parseHourRanges (hourSpecs : List String) : Except String (List Nat) :=
  parseRanges parseHourPart hourSpecs

example : parseDayRanges ["mon-wed,fri-sun"] = .ok [0, 1, 2, 4, 5, 6] := by decide +kernel
example : parseHourRanges ["22-1"] = .ok [22, 23, 0, 1] := by decide +kernel
example : parseHourRanges ["9-17-20"] = .error "Invalid hour range: 9-17-20" := by decide +kernel

end Ranges

inductive ProviderError where
  | invalidTimezone (name : String)
  | window (text : String)
  | calendar (text : String)
  | unnamespaced (kind : String)
  | kube (e : KubeError)
  deriving DecidableEq

def ProviderError.text : ProviderError → String
  | .invalidTimezone name => "invalid timezone: " ++ name
  | .window text => "invalid schedule window: " ++ text
  | .calendar text => "invalid session calendar: " ++ text
  | .unnamespaced kind => kind ++ " must be namespaced"
  | .kube e => "Kubernetes API error: " ++ e.text

structure Zone where
  offset : Instant → Int

def Zone.localTime (zone : Zone) (instant : Instant) : LocalTime :=
  Calendar.localTime (instant / nanosPerSecond + zone.offset instant)

abbrev Zones := String → Option Zone

structure TimeBasedSpotScheduleSpec where
  daysOfWeek : List String
  hoursOfDay : List String
  timezone : String
  enabled : Bool

structure TradingSession where
  daysOfWeek : List String
  hoursOfDay : List String

structure EarlyClose where
  date : String
  closeHour : Nat

structure CapitalMarketsScheduleSpec where
  timezone : String
  sessions : List TradingSession
  holidays : List String
  earlyCloses : List EarlyClose

def findZone (zones : Zones) (timezone : String) : Except ProviderError Zone :=
  match zones timezone with
  | some zone => .ok zone
  | none => .error (.invalidTimezone timezone)

theorem findZone_eq_ok {zones : Zones} {timezone : String} {zone : Zone}
    (h : zones timezone = some zone) : findZone zones timezone = .ok zone := by
  rw [findZone, h]

namespace TimeBased

/-- What is left of `is_active_at` once the local time is known. -/
def covers (spec : TimeBasedSpotScheduleSpec) (now : LocalTime) : Except ProviderError Bool := do
  let days ← (parseDayRanges spec.daysOfWeek).mapError .window
  let hours ← (parseHourRanges spec.hoursOfDay).mapError .window
  return days.contains now.weekday && hours.contains now.hour

def isActiveAt (zones : Zones) (spec : TimeBasedSpotScheduleSpec) (instant : Instant) :
    Except ProviderError Bool :=
  if !spec.enabled then .ok false
  else do
    let zone ← findZone zones spec.timezone
    covers spec (zone.localTime instant)

end TimeBased

namespace CapitalMarkets

/-- The sessions in turn, up to the one that covers the time. -/
def inSession (now : LocalTime) : List TradingSession → Except ProviderError Bool
  | [] => .ok false
  | session :: rest => do
      let days ← (parseDayRanges session.daysOfWeek).mapError .calendar
      let hours ← (parseHourRanges session.hoursOfDay).mapError .calendar
      if days.contains now.weekday && hours.contains now.hour then return true
      else inSession now rest

def covers (spec : CapitalMarketsScheduleSpec) (now : LocalTime) : Except ProviderError Bool := do
  let date := now.date.text
  if spec.holidays.any (· == date) then return false
  else if !(← inSession now spec.sessions) then return false
  else
    match spec.earlyCloses.find? fun early => early.date == date with
    | some early => return !(now.hour > early.closeHour)
    | none => return true

def isActiveAt (zones : Zones) (spec : CapitalMarketsScheduleSpec) (instant : Instant) :
    Except ProviderError Bool := do
  let zone ← findZone zones spec.timezone
  covers spec (zone.localTime instant)

end CapitalMarkets

inductive ProviderSpec where
  | timeBased (spec : TimeBasedSpotScheduleSpec)
  | capitalMarkets (spec : CapitalMarketsScheduleSpec)

namespace ProviderSpec

def timezone : ProviderSpec → String
  | .timeBased spec => spec.timezone
  | .capitalMarkets spec => spec.timezone

def isActiveAt (zones : Zones) : ProviderSpec → Instant → Except ProviderError Bool
  | .timeBased spec => TimeBased.isActiveAt zones spec
  | .capitalMarkets spec => CapitalMarkets.isActiveAt zones spec

/-- The spec can be evaluated at every instant. -/
def Valid (zones : Zones) (spec : ProviderSpec) : Prop :=
  ∀ instant, ∃ active, spec.isActiveAt zones instant = .ok active

/-- All texts of the spec parse, whether or not they are ever looked at. -/
def Parses (zones : Zones) (spec : ProviderSpec) : Prop :=
  (∃ zone, zones spec.timezone = some zone) ∧
    match spec with
    | .timeBased spec => (∃ days, parseDayRanges spec.daysOfWeek = .ok days) ∧
        ∃ hours, parseHourRanges spec.hoursOfDay = .ok hours
    | .capitalMarkets spec => ∀ session ∈ spec.sessions,
        (∃ days, parseDayRanges session.daysOfWeek = .ok days) ∧
          ∃ hours, parseHourRanges session.hoursOfDay = .ok hours

variable {zones : Zones} {spec : ProviderSpec}

theorem timeBased_covers_ok {spec : TimeBasedSpotScheduleSpec}
    (hdays : ∃ days, parseDayRanges spec.daysOfWeek = .ok days)
    (hhours : ∃ hours, parseHourRanges spec.hoursOfDay = .ok hours) (now : LocalTime) :
    ∃ active, TimeBased.covers spec now = .ok active := by
  obtain ⟨days, hdays⟩ := hdays
  obtain ⟨hours, hhours⟩ := hhours
  unfold TimeBased.covers
  rw [hdays, hhours]
  exact ⟨_, rfl⟩

theorem inSession_ok {sessions : List TradingSession}
    (h : ∀ session ∈ sessions, (∃ days, parseDayRanges session.daysOfWeek = .ok days) ∧
      ∃ hours, parseHourRanges session.hoursOfDay = .ok hours) (now : LocalTime) :
    ∃ covered, CapitalMarkets.inSession now sessions = .ok covered := by
  induction sessions with
  | nil => exact ⟨false, rfl⟩
  | cons session rest ih =>
    obtain ⟨⟨days, hdays⟩, hours, hhours⟩ := h session List.mem_cons_self
    unfold CapitalMarkets.inSession
    rw [hdays, hhours]
    change ∃ covered, (if (days.contains now.weekday && hours.contains now.hour) = true
      then Except.ok true else CapitalMarkets.inSession now rest) = .ok covered
    split
    · exact ⟨true, rfl⟩
    · exact ih fun s hs => h s (List.mem_cons_of_mem _ hs)

theorem capitalMarkets_covers_ok {spec : CapitalMarketsScheduleSpec} {now : LocalTime}
    (h : ∃ covered, CapitalMarkets.inSession now spec.sessions = .ok covered) :
    ∃ active, CapitalMarkets.covers spec now = .ok active := by
  obtain ⟨covered, hcovered⟩ := h
  unfold CapitalMarkets.covers
  rw [hcovered]
  simp only
  split
  · exact ⟨false, rfl⟩
  · cases covered with
    | false => exact ⟨false, rfl⟩
    | true =>
      cases spec.earlyCloses.find? fun early => early.date == now.date.text with
      | some early => exact ⟨_, rfl⟩
      | none => exact ⟨true, rfl⟩

theorem Parses.valid (h : spec.Parses zones) : spec.Valid zones := by
  intro instant
  obtain ⟨⟨zone, hzone⟩, hparts⟩ := h
  cases spec with
  | timeBased spec =>
    have hfind : findZone zones spec.timezone = .ok zone := findZone_eq_ok hzone
    by_cases henabled : spec.enabled = true
    · have hactive : TimeBased.isActiveAt zones spec instant =
          TimeBased.covers spec (zone.localTime instant) := by
        rw [TimeBased.isActiveAt, hfind, henabled]
        rfl
      simp only [isActiveAt, hactive]
      exact timeBased_covers_ok hparts.1 hparts.2 _
    · exact ⟨false, by simp [isActiveAt, TimeBased.isActiveAt, henabled]⟩
  | capitalMarkets spec =>
    have hfind : findZone zones spec.timezone = .ok zone := findZone_eq_ok hzone
    have hactive : CapitalMarkets.isActiveAt zones spec instant =
        CapitalMarkets.covers spec (zone.localTime instant) := by
      rw [CapitalMarkets.isActiveAt, hfind]
      rfl
    simp only [isActiveAt, hactive]
    exact capitalMarkets_covers_ok (inSession_ok hparts _)

theorem isActiveAt_congr {zone : Zone} (hzone : zones spec.timezone = some zone) {a b : Instant}
    (hclock : zone.localTime a = zone.localTime b) :
    spec.isActiveAt zones a = spec.isActiveAt zones b := by
  cases spec with
  | timeBased spec =>
    have hfind : findZone zones spec.timezone = .ok zone := findZone_eq_ok hzone
    simp only [isActiveAt, TimeBased.isActiveAt, hfind, bind, Except.bind, hclock]
  | capitalMarkets spec =>
    have hfind : findZone zones spec.timezone = .ok zone := findZone_eq_ok hzone
    simp only [isActiveAt, CapitalMarkets.isActiveAt, hfind, bind, Except.bind, hclock]

/-- The offset is a whole number of hours and does not change within an hour of UTC. -/
structure WholeHours (zone : Zone) (a b : Instant) : Prop where
  whole : 3600 ∣ zone.offset a
  same : zone.offset a = zone.offset b

theorem isActiveAt_eq_of_wholeHours {zone : Zone} (hzone : zones spec.timezone = some zone)
    {a b : Int} (hoffset : WholeHours zone a b)
    (hhour : a / (3600 * nanosPerSecond) = b / (3600 * nanosPerSecond)) :
    spec.isActiveAt zones a = spec.isActiveAt zones b := by
  refine isActiveAt_congr hzone (Calendar.localTime_eq ?_)
  obtain ⟨k, hk⟩ := hoffset.whole
  rw [← hoffset.same, hk]
  rw [show 3600 * nanosPerSecond = 3600000000000 from rfl] at hhour
  simp only [nanosPerSecond]
  omega

end ProviderSpec

end FiveSpot.Provider
