import FiveSpot.Provider.Calendar
import Mathlib.Data.List.Basic

/-!
# The market calendar as three lists

`is_active_at` of `providers/capital_markets.rs` stops at the first session that covers the time, before
it has read the sessions behind it, and asks the first early close of the date alone. So the order of
the lists is visible: in a malformed session behind one that covers, and in two early closes of one date.
-/

namespace FiveSpot.Provider.CapitalMarkets

set_option autoImplicit false

open Calendar (LocalTime)

variable {zones : Zones} {spec spec' : CapitalMarketsScheduleSpec} {now : LocalTime}

section Sessions

variable {session : TradingSession} {sessions : List TradingSession}

def WellFormed (session : TradingSession) : Prop :=
  (∃ days, parseDayRanges session.daysOfWeek = .ok days) ∧
    ∃ hours, parseHourRanges session.hoursOfDay = .ok hours

def Covers (now : LocalTime) (session : TradingSession) : Prop :=
  ∃ days hours, parseDayRanges session.daysOfWeek = .ok days ∧
    parseHourRanges session.hoursOfDay = .ok hours ∧ now.weekday ∈ days ∧ now.hour ∈ hours

theorem inSession_cons_of_covers (h : Covers now session) :
    inSession now (session :: sessions) = .ok true := by
  obtain ⟨days, hours, hdays, hhours, hday, hhour⟩ := h
  rw [inSession, hdays, hhours]
  simp only [Except.mapError, List.contains_iff_mem, Bool.and_eq_true]
  exact if_pos ⟨hday, hhour⟩

theorem inSession_cons_of_not_wellFormed (h : ¬ WellFormed session) :
    (inSession now (session :: sessions)).toOption = none := by
  unfold inSession
  cases hdays : parseDayRanges session.daysOfWeek with
  | error e => rfl
  | ok days =>
    cases hhours : parseHourRanges session.hoursOfDay with
    | error e => rfl
    | ok hours => exact absurd ⟨⟨days, hdays⟩, hours, hhours⟩ h

theorem inSession_cons_of_not_covers (hwell : WellFormed session) (h : ¬ Covers now session) :
    inSession now (session :: sessions) = inSession now sessions := by
  obtain ⟨⟨days, hdays⟩, hours, hhours⟩ := hwell
  have hout : ¬ (now.weekday ∈ days ∧ now.hour ∈ hours) := fun hin =>
    h ⟨days, hours, hdays, hhours, hin.1, hin.2⟩
  rw [inSession, hdays, hhours]
  simp only [Except.mapError, List.contains_iff_mem, Bool.and_eq_true]
  exact if_neg hout

theorem inSession_of_covers (hwell : ∀ session ∈ sessions, WellFormed session)
    (h : ∃ session ∈ sessions, Covers now session) : inSession now sessions = .ok true := by
  induction sessions with
  | nil => simp at h
  | cons session sessions ih =>
    by_cases hcovers : Covers now session
    · exact inSession_cons_of_covers hcovers
    · obtain ⟨hhead, htail⟩ := List.forall_mem_cons.mp hwell
      rw [inSession_cons_of_not_covers hhead hcovers]
      exact ih htail ((List.exists_mem_cons_iff ..).mp h |>.resolve_left hcovers)

theorem inSession_of_none_covers (h : ∀ session ∈ sessions, ¬ Covers now session) :
    ((∀ session ∈ sessions, WellFormed session) → inSession now sessions = .ok false) ∧
      ((∃ session ∈ sessions, ¬ WellFormed session) → (inSession now sessions).toOption = none) := by
  induction sessions with
  | nil => exact ⟨fun _ => rfl, by simp⟩
  | cons session sessions ih =>
    obtain ⟨hhead, htail⟩ := List.forall_mem_cons.mp h
    obtain ⟨hfalse, hnone⟩ := ih htail
    by_cases hwell : WellFormed session
    · rw [inSession_cons_of_not_covers hwell hhead]
      refine ⟨fun hall => hfalse (List.forall_mem_cons.mp hall).2, fun hbad => ?_⟩
      exact hnone ((List.exists_mem_cons_iff ..).mp hbad |>.resolve_left (not_not_intro hwell))
    · refine ⟨fun hall => absurd (List.forall_mem_cons.mp hall).1 hwell, fun _ => ?_⟩
      exact inSession_cons_of_not_wellFormed hwell

theorem exists_covers_of_inSession (h : inSession now sessions = .ok true) :
    ∃ session ∈ sessions, Covers now session := by
  by_contra hnone
  have hnone : ∀ session ∈ sessions, ¬ Covers now session := fun session hmem hcovers =>
    hnone ⟨session, hmem, hcovers⟩
  obtain ⟨hfalse, hmalformed⟩ := inSession_of_none_covers hnone
  by_cases hall : ∀ session ∈ sessions, WellFormed session
  · cases (hfalse hall).symm.trans h
  · push Not at hall
    have hopt := hmalformed hall
    rw [h] at hopt
    cases hopt

end Sessions

section Covers

/-- The answer of the first early close of the date. -/
def shut (now : LocalTime) (earlyCloses : List EarlyClose) : Bool :=
  match earlyCloses.find? fun early => early.date == now.date.text with
  | some early => decide (now.hour > early.closeHour)
  | none => false

theorem covers_of_holiday (h : now.date.text ∈ spec.holidays) : covers spec now = .ok false := by
  have hany : spec.holidays.any (· == now.date.text) = true := by simpa using h
  rw [covers, if_pos hany]
  rfl

theorem covers_of_not_holiday (h : now.date.text ∉ spec.holidays) : covers spec now =
    (inSession now spec.sessions).map fun inside => inside && !shut now spec.earlyCloses := by
  have hany : ¬ spec.holidays.any (· == now.date.text) = true := by simpa using h
  rw [covers, if_neg hany]
  cases inSession now spec.sessions with
  | error e => rfl
  | ok inside =>
    cases inside with
    | false => rfl
    | true =>
      simp only [Except.map, shut, bind, Except.bind]
      cases spec.earlyCloses.find? fun early => early.date == now.date.text <;> simp <;> rfl

theorem toOption_covers_eq_none (h : now.date.text ∉ spec.holidays)
    (hnone : (inSession now spec.sessions).toOption = none) : (covers spec now).toOption = none := by
  rw [covers_of_not_holiday h]
  cases hin : inSession now spec.sessions with
  | error e => rfl
  | ok inside =>
    rw [hin] at hnone
    cases hnone

theorem shut_eq_false (h : ∀ early ∈ spec.earlyCloses, early.date = now.date.text →
    now.hour ≤ early.closeHour) : shut now spec.earlyCloses = false := by
  unfold shut
  split
  · rename_i early hfind
    have hdate : early.date = now.date.text := by simpa using List.find?_some hfind
    simpa using h early (List.mem_of_find?_eq_some hfind) hdate
  · rfl

theorem shut_cons {early : EarlyClose} {earlyCloses : List EarlyClose}
    (h : early.date = now.date.text) :
    shut now (early :: earlyCloses) = decide (now.hour > early.closeHour) := by
  simp [shut, h]

end Covers

section Orders

structure Rearranged (spec spec' : CapitalMarketsScheduleSpec) : Prop where
  timezone : spec'.timezone = spec.timezone
  sessions : spec'.sessions.Perm spec.sessions
  holidays : spec'.holidays.Perm spec.holidays
  earlyCloses : spec'.earlyCloses.Perm spec.earlyCloses

/-- One more entry that is there to close the market. -/
inductive Restricted (spec : CapitalMarketsScheduleSpec) : CapitalMarketsScheduleSpec → Prop
  | holiday (before after : List String) (date : String) (h : spec.holidays = before ++ after) :
      Restricted spec { spec with holidays := before ++ date :: after }
  | earlyClose (before after : List EarlyClose) (early : EarlyClose)
      (h : spec.earlyCloses = before ++ after) :
      Restricted spec { spec with earlyCloses := before ++ early :: after }

/-- No rearrangement shows, in the answer or in whether there is one. -/
def OrderFree (zones : Zones) (spec : CapitalMarketsScheduleSpec) (instant : Instant) : Prop :=
  ∀ spec', Rearranged spec spec' →
    (isActiveAt zones spec' instant).toOption = (isActiveAt zones spec instant).toOption

/-- No entry that is there to close the market opens it. -/
def Monotone (zones : Zones) (spec : CapitalMarketsScheduleSpec) (instant : Instant) : Prop :=
  ∀ spec', Restricted spec spec' → isActiveAt zones spec instant = .ok false →
    isActiveAt zones spec' instant ≠ .ok true

/--
Where it is not a holiday and some session covers the time, nothing is malformed and no early close of
the date has passed.
-/
def Unambiguous (spec : CapitalMarketsScheduleSpec) (now : LocalTime) : Prop :=
  now.date.text ∈ spec.holidays ∨ ((∃ session ∈ spec.sessions, Covers now session) →
    (∀ session ∈ spec.sessions, WellFormed session) ∧
      ∀ early ∈ spec.earlyCloses, early.date = now.date.text → now.hour ≤ early.closeHour)

theorem Rearranged.unambiguous (h : Rearranged spec spec') (hspec : Unambiguous spec now) :
    Unambiguous spec' now := by
  simpa only [Unambiguous, h.holidays.mem_iff, h.sessions.mem_iff, h.earlyCloses.mem_iff] using hspec

theorem covers_of_unambiguous (hspec : Unambiguous spec now) (hday : now.date.text ∉ spec.holidays)
    (h : ∃ session ∈ spec.sessions, Covers now session) : covers spec now = .ok true := by
  obtain ⟨hwell, hearly⟩ := hspec.resolve_left hday h
  rw [covers_of_not_holiday hday, inSession_of_covers hwell h, shut_eq_false hearly]
  rfl

theorem covers_of_none_covers (hday : now.date.text ∉ spec.holidays)
    (h : ∀ session ∈ spec.sessions, ¬ Covers now session) :
    ((∀ session ∈ spec.sessions, WellFormed session) → covers spec now = .ok false) ∧
      ((∃ session ∈ spec.sessions, ¬ WellFormed session) → (covers spec now).toOption = none) := by
  obtain ⟨hfalse, hnone⟩ := inSession_of_none_covers h
  refine ⟨fun hall => ?_, fun hbad => toOption_covers_eq_none hday (hnone hbad)⟩
  rw [covers_of_not_holiday hday, hfalse hall]
  rfl

theorem Rearranged.toOption_covers (h : Rearranged spec spec') (hspec : Unambiguous spec now) :
    (covers spec' now).toOption = (covers spec now).toOption := by
  by_cases hday : now.date.text ∈ spec.holidays
  · rw [covers_of_holiday hday, covers_of_holiday (h.holidays.mem_iff.mpr hday)]
  have hday' : now.date.text ∉ spec'.holidays := fun hmem => hday (h.holidays.mem_iff.mp hmem)
  by_cases hcovers : ∃ session ∈ spec.sessions, Covers now session
  · rw [covers_of_unambiguous hspec hday hcovers, covers_of_unambiguous (h.unambiguous hspec) hday' ?_]
    simpa only [h.sessions.mem_iff] using hcovers
  push Not at hcovers
  have hcovers' : ∀ session ∈ spec'.sessions, ¬ Covers now session := fun session hmem =>
    hcovers session (h.sessions.mem_iff.mp hmem)
  obtain ⟨hfalse, hnone⟩ := covers_of_none_covers hday hcovers
  obtain ⟨hfalse', hnone'⟩ := covers_of_none_covers hday' hcovers'
  by_cases hwell : ∀ session ∈ spec.sessions, WellFormed session
  · rw [hfalse hwell, hfalse' fun session hmem => hwell session (h.sessions.mem_iff.mp hmem)]
  · push Not at hwell
    rw [hnone hwell, hnone' (by simpa only [h.sessions.mem_iff] using hwell)]

theorem open_of_covers (h : covers spec now = .ok true) :
    now.date.text ∉ spec.holidays ∧ ∃ session ∈ spec.sessions, Covers now session := by
  have hday : now.date.text ∉ spec.holidays := by
    intro hmem
    cases (covers_of_holiday hmem).symm.trans h
  refine ⟨hday, exists_covers_of_inSession ?_⟩
  rw [covers_of_not_holiday hday] at h
  cases hin : inSession now spec.sessions with
  | error e =>
    rw [hin] at h
    cases h
  | ok inside =>
    rw [hin] at h
    cases inside with
    | true => rfl
    | false => cases h

theorem Restricted.subset (h : Restricted spec spec') :
    spec'.timezone = spec.timezone ∧ spec'.sessions = spec.sessions ∧
      ∀ day ∈ spec.holidays, day ∈ spec'.holidays := by
  cases h with
  | holiday before after date h =>
    refine ⟨rfl, rfl, fun day hmem => ?_⟩
    rw [h] at hmem
    simp only [List.mem_append, List.mem_cons] at hmem ⊢
    tauto
  | earlyClose => exact ⟨rfl, rfl, fun _ hmem => hmem⟩

theorem Restricted.covers_ne (h : Restricted spec spec') (hspec : Unambiguous spec now)
    (hclosed : covers spec now = .ok false) : covers spec' now ≠ .ok true := by
  intro hopen
  obtain ⟨_, hsessions, hholidays⟩ := h.subset
  obtain ⟨hday', hcovers⟩ := open_of_covers hopen
  have hday : now.date.text ∉ spec.holidays := fun hmem => hday' (hholidays _ hmem)
  rw [hsessions] at hcovers
  cases hclosed.symm.trans (covers_of_unambiguous hspec hday hcovers)

end Orders

section Necessity

theorem exists_perm_cons {α : Type} {a : α} {l : List α} (h : a ∈ l) :
    ∃ rest, (a :: rest).Perm l := by
  obtain ⟨before, after, rfl⟩ := List.append_of_mem h
  exact ⟨before ++ after, List.perm_middle.symm⟩

variable (hday : now.date.text ∉ spec.holidays)

include hday

theorem wellFormed_of_orderFree
    (hfree : ∀ spec', Rearranged spec spec' →
      (covers spec' now).toOption = (covers spec now).toOption)
    (hcovers : ∃ session ∈ spec.sessions, Covers now session) :
    ∀ session ∈ spec.sessions, WellFormed session := by
  intro bad hbad
  by_contra hmalformed
  obtain ⟨good, hgood, hcovers⟩ := hcovers
  obtain ⟨others, hfront⟩ := exists_perm_cons hgood
  obtain ⟨others', hfront'⟩ := exists_perm_cons hbad
  have hok := hfree { spec with sessions := good :: others } ⟨rfl, hfront, .refl _, .refl _⟩
  have hnone := hfree { spec with sessions := bad :: others' } ⟨rfl, hfront', .refl _, .refl _⟩
  rw [covers_of_not_holiday (by exact hday), inSession_cons_of_covers hcovers] at hok
  rw [toOption_covers_eq_none (by exact hday) (inSession_cons_of_not_wellFormed hmalformed),
    ← hok] at hnone
  cases hnone

/-- Behind a later close of the same date an early close does nothing. -/
theorem hour_le_of_monotone
    (hfree : ∀ spec', Rearranged spec spec' →
      (covers spec' now).toOption = (covers spec now).toOption)
    (hmono : ∀ spec', Restricted spec spec' → covers spec now = .ok false →
      covers spec' now ≠ .ok true)
    (hin : inSession now spec.sessions = .ok true) :
    ∀ early ∈ spec.earlyCloses, early.date = now.date.text → now.hour ≤ early.closeHour := by
  intro early hearly hdate
  by_contra hpassed
  obtain ⟨others, hfront⟩ := exists_perm_cons hearly
  have hsame := hfree { spec with earlyCloses := early :: others } ⟨rfl, .refl _, .refl _, hfront⟩
  have hclosed : covers spec now = .ok false := by
    rw [covers_of_not_holiday hday, hin, covers_of_not_holiday (by exact hday), hin,
      shut_cons hdate] at hsame
    rw [covers_of_not_holiday hday, hin]
    simp only [Except.map, Except.toOption, Option.some.injEq, Except.ok.injEq] at hsame ⊢
    rw [← hsame]
    simpa using hpassed
  refine hmono { spec with earlyCloses := [] ++ ⟨now.date.text, now.hour⟩ :: spec.earlyCloses }
    (.earlyClose [] spec.earlyCloses _ rfl) hclosed ?_
  rw [covers_of_not_holiday (by exact hday), hin, List.nil_append, shut_cons rfl]
  simp [Except.map]

end Necessity

theorem isActiveAt_of_zone {zone : Zone} (h : zones spec.timezone = some zone) (instant : Instant) :
    isActiveAt zones spec instant = covers spec (zone.localTime instant) := by
  rw [isActiveAt, findZone_eq_ok h]
  rfl

theorem isActiveAt_of_no_zone (h : zones spec.timezone = none) (instant : Instant) :
    isActiveAt zones spec instant = .error (.invalidTimezone spec.timezone) := by
  rw [isActiveAt, findZone, h]
  rfl

/--
Order and insertions do not show exactly where, on a day that is not a holiday and in a session that
covers the time, nothing is malformed and no early close of the day has passed.
-/
theorem order_free_and_monotone_iff (zones : Zones) (spec : CapitalMarketsScheduleSpec)
    (instant : Instant) : OrderFree zones spec instant ∧ Monotone zones spec instant ↔
      ∀ zone, zones spec.timezone = some zone → Unambiguous spec (zone.localTime instant) := by
  cases hzone : zones spec.timezone with
  | none =>
    refine ⟨fun _ _ => (nomatch ·), fun _ => ⟨fun spec' h => ?_, fun spec' h hclosed => ?_⟩⟩
    · rw [isActiveAt_of_no_zone hzone, isActiveAt_of_no_zone (h.timezone ▸ hzone)]
      rfl
    · rw [isActiveAt_of_no_zone hzone] at hclosed
      cases hclosed
  | some zone =>
    have hfree : OrderFree zones spec instant ↔ ∀ spec', Rearranged spec spec' →
        (covers spec' (zone.localTime instant)).toOption =
          (covers spec (zone.localTime instant)).toOption := by
      refine forall_congr' fun spec' => forall_congr' fun h => ?_
      rw [isActiveAt_of_zone hzone, isActiveAt_of_zone (h.timezone ▸ hzone)]
    have hmono : Monotone zones spec instant ↔ ∀ spec', Restricted spec spec' →
        covers spec (zone.localTime instant) = .ok false →
          covers spec' (zone.localTime instant) ≠ .ok true := by
      refine forall_congr' fun spec' => forall_congr' fun h => ?_
      rw [isActiveAt_of_zone hzone, isActiveAt_of_zone (h.subset.1 ▸ hzone)]
    rw [hfree, hmono]
    constructor
    · rintro ⟨hfree, hmono⟩ _ ⟨⟩
      by_cases hday : (zone.localTime instant).date.text ∈ spec.holidays
      · exact .inl hday
      · refine .inr fun hcovers => ?_
        have hwell := wellFormed_of_orderFree hday hfree hcovers
        exact ⟨hwell, hour_le_of_monotone hday hfree hmono (inSession_of_covers hwell hcovers)⟩
    · intro hspec
      exact ⟨fun _ h => h.toOption_covers (hspec zone rfl), fun _ h => h.covers_ne (hspec zone rfl)⟩

section Visible

def utc : Zones := fun _ => some ⟨fun _ => 0⟩

def afternoon : Instant := 14 * 3600 * nanosPerSecond

def market (sessions : List TradingSession) (earlyCloses : List EarlyClose) :
    CapitalMarketsScheduleSpec where
  timezone := "UTC"
  sessions := sessions
  holidays := []
  earlyCloses := earlyCloses

def weekdays : TradingSession := ⟨["mon-fri"], ["9-17"]⟩

def misspelt : TradingSession := ⟨["mon-fri"], ["9-25"]⟩

def atNoon : EarlyClose := ⟨"1970-01-01", 12⟩
def atFour : EarlyClose := ⟨"1970-01-01", 16⟩

/--
Two early closes of one date, a malformed session beside one that covers the time, and a later close in
front of one that has passed.
-/
theorem order_shows :
    (Rearranged (market [weekdays] [atFour, atNoon]) (market [weekdays] [atNoon, atFour]) ∧
      isActiveAt utc (market [weekdays] [atFour, atNoon]) afternoon = .ok true ∧
      isActiveAt utc (market [weekdays] [atNoon, atFour]) afternoon = .ok false) ∧
    (Rearranged (market [weekdays, misspelt] []) (market [misspelt, weekdays] []) ∧
      isActiveAt utc (market [weekdays, misspelt] []) afternoon = .ok true ∧
      (isActiveAt utc (market [misspelt, weekdays] []) afternoon).toOption = none) ∧
    (Restricted (market [weekdays] [atNoon]) (market [weekdays] [atFour, atNoon]) ∧
      isActiveAt utc (market [weekdays] [atNoon]) afternoon = .ok false ∧
      isActiveAt utc (market [weekdays] [atFour, atNoon]) afternoon = .ok true) := by
  refine ⟨⟨⟨rfl, .refl _, .refl _, .swap ..⟩, ?_, ?_⟩, ⟨⟨rfl, .swap .., .refl _, .refl _⟩, ?_, ?_⟩,
    .earlyClose [] [atNoon] atFour rfl, ?_, ?_⟩
  all_goals decide +kernel

end Visible

end FiveSpot.Provider.CapitalMarkets
