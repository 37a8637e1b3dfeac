import FiveSpot.Provider.Status

/-!
# How far a provider looks ahead

`next_transition` of `providers/time_based.rs` asks 192 whole hours of UTC. Under a constant offset
the wall clock comes round after 168 hours, and the whole hours, wherever they fall within an hour of
the wall clock, show each hour of the week once. So a scan that finds nothing has seen everything.
-/

namespace FiveSpot.Provider

set_option autoImplicit false

open Calendar (LocalTime)

/-- The clocks of the zone are always equally far from UTC. -/
def Zone.Constant (zone : Zone) (offset : Int) : Prop := ∀ instant, zone.offset instant = offset

variable {zones : Zones} {spec : TimeBasedSpotScheduleSpec} {zone : Zone} {offset : Int}

namespace TimeBased

theorem covers_congr {now now' : LocalTime} (hday : now.weekday = now'.weekday)
    (hhour : now.hour = now'.hour) : covers spec now = covers spec now' := by
  simp only [covers, hday, hhour]

theorem isActiveAt_of_zone (henabled : spec.enabled = true) (hzone : zones spec.timezone = some zone)
    (instant : Instant) : isActiveAt zones spec instant = covers spec (zone.localTime instant) := by
  rw [isActiveAt, findZone_eq_ok hzone, henabled]
  rfl

theorem sample_hour (start offset : Int) (i : Nat) :
    ((Scan.floorTo hourNanos start + hourNanos + i * hourNanos) / nanosPerSecond + offset) / 3600 =
      start / 3600000000000 + 1 + i + offset / 3600 := by
  have hseconds : (Scan.floorTo hourNanos start + hourNanos + i * hourNanos) / nanosPerSecond =
      3600 * (start / 3600000000000 + 1 + i) := by
    simp only [Scan.floorTo, hourNanos, nanosPerSecond]
    omega
  rw [hseconds]
  omega

theorem exists_sample (hconstant : zone.Constant offset) (start t : Int) :
    ∃ i : Nat, i < 168 ∧
      168 ∣ (t / nanosPerSecond + zone.offset t) / 3600 -
        ((Scan.floorTo hourNanos start + hourNanos + i * hourNanos) / nanosPerSecond +
          zone.offset (Scan.floorTo hourNanos start + hourNanos + i * hourNanos)) / 3600 := by
  simp only [hconstant _, sample_hour]
  generalize (t / nanosPerSecond + offset) / 3600 = hour
  generalize start / 3600000000000 + 1 = first
  refine ⟨((hour - (first + offset / 3600)) % 168).toNat, by omega, ?_⟩
  refine Int.dvd_of_emod_eq_zero ?_
  omega

theorem isActiveAt_of_none (hzone : zones spec.timezone = some zone) (hconstant : zone.Constant offset)
    (henabled : spec.enabled = true) {start : Instant} {current : Bool}
    (hnone : Scan.firstChange (isActiveAt zones spec) current hourNanos providerTransitionHorizonHours
      (Scan.floorTo hourNanos start + hourNanos) = .ok none) (t : Instant) :
    isActiveAt zones spec t = .ok current := by
  obtain ⟨i, hi, hweek⟩ := exists_sample hconstant start t
  have hhorizon : i < providerTransitionHorizonHours :=
    Nat.lt_of_lt_of_le hi (by decide : 168 ≤ providerTransitionHorizonHours)
  obtain ⟨hday, hhour⟩ := Calendar.localTime_of_week hweek
  rw [← Scan.eq_of_firstChange_eq_none hnone hhorizon, isActiveAt_of_zone henabled hzone,
    isActiveAt_of_zone henabled hzone]
  exact covers_congr hday hhour

theorem isActiveAt_of_disabled (hdisabled : spec.enabled = false) (t : Instant) :
    isActiveAt zones spec t = .ok false := by
  simp [isActiveAt, hdisabled]

theorem exists_zone_of_isActiveAt (henabled : spec.enabled = true) {t : Instant} {active : Bool}
    (h : isActiveAt zones spec t = .ok active) : ∃ zone, zones spec.timezone = some zone := by
  cases hzone : zones spec.timezone with
  | some zone => exact ⟨zone, rfl⟩
  | none =>
    simp [isActiveAt, henabled, findZone, hzone] at h
    cases h

/--
Under a constant offset, a scan without a result means that nothing ever changes from then on, and
the result of one is the first whole hour of UTC at which something does.
-/
theorem horizon_is_long_enough (zones : Zones) (spec : TimeBasedSpotScheduleSpec) (start : Instant)
    (hconstant : ∀ zone, zones spec.timezone = some zone → ∃ offset, zone.Constant offset) :
    (nextTransition zones spec start = .ok none →
      ∀ t, start ≤ t → isActiveAt zones spec t = isActiveAt zones spec start) ∧
    ∀ t, nextTransition zones spec start = .ok (some t) →
      (∀ s, hourNanos ∣ s → start < s → s < t → isActiveAt zones spec s = isActiveAt zones spec start) ∧
        ∃ active, isActiveAt zones spec start = .ok active ∧ isActiveAt zones spec t = .ok (!active) := by
  constructor
  · intro hnone t _
    obtain ⟨current, hcurrent, hscan⟩ := nextTransition_eq_ok_iff.mp hnone
    rw [hcurrent]
    cases henabled : spec.enabled with
    | false =>
      rw [isActiveAt_of_disabled henabled] at hcurrent ⊢
      exact hcurrent
    | true =>
      obtain ⟨zone, hzone⟩ := exists_zone_of_isActiveAt henabled hcurrent
      obtain ⟨offset, hoffset⟩ := hconstant zone hzone
      exact isActiveAt_of_none hzone hoffset henabled hscan t
  · intro t hsome
    obtain ⟨current, hcurrent, hscan⟩ := nextTransition_eq_ok_iff.mp hsome
    have hfirst := (Scan.firstChange_eq_some_iff hourNanos_pos).mp hscan
    refine ⟨fun s hs hstart hst => ?_, current, hcurrent, hfirst.change⟩
    rw [hcurrent]
    have hfloor : hourNanos ∣ Scan.floorTo hourNanos start := Int.dvd_self_sub_emod
    have hgrid : hourNanos ∣ s - Scan.floorTo hourNanos start := Int.dvd_sub hs hfloor
    have hlt : Scan.floorTo hourNanos start < s :=
      Int.lt_of_le_of_lt (Scan.floorTo_le hourNanos_pos start) hstart
    exact hfirst.same s (Scan.dvd_sub_add_step_iff.mpr hgrid) (Scan.add_step_le hgrid hlt) hst

/-- Working hours where the clocks are three quarters of an hour off the whole ones. -/
def quarterZones : Zones := fun _ => some ⟨fun _ => 20700⟩

def workingHours : TimeBasedSpotScheduleSpec where
  daysOfWeek := ["mon-fri"]
  hoursOfDay := ["9-17"]
  timezone := "Asia/Kathmandu"
  enabled := true

theorem horizon_of_workingHours :
    nextTransition quarterZones workingHours 0 = .ok (some (4 * hourNanos)) ∧
      (∀ s, hourNanos ∣ s → 0 < s → s < 4 * hourNanos →
        isActiveAt quarterZones workingHours s = isActiveAt quarterZones workingHours 0) ∧
      ∃ active, isActiveAt quarterZones workingHours 0 = .ok active ∧
        isActiveAt quarterZones workingHours (4 * hourNanos) = .ok (!active) := by
  have hnext : nextTransition quarterZones workingHours 0 = .ok (some (4 * hourNanos)) := by
    decide +kernel
  have hconstant : ∀ zone, quarterZones workingHours.timezone = some zone →
      ∃ offset, zone.Constant offset := by
    rintro zone ⟨⟩
    exact ⟨20700, fun _ => rfl⟩
  exact ⟨hnext, (horizon_is_long_enough quarterZones workingHours 0 hconstant).2 _ hnext⟩

end TimeBased

end FiveSpot.Provider
