import FiveSpot.Data.Text

/-!
# Dates and times of day

A clock reading is a number of seconds since the start of 1970 on some wall clock. Dates are those of
the proleptic Gregorian calendar; the texts are chrono's.
-/

namespace FiveSpot.Calendar

set_option autoImplicit false

structure Date where
  year : Int
  month : Nat
  day : Nat
  deriving DecidableEq

/-- The date a number of days after 1970-01-01, by eras of 400 years that start in March. -/
def civilFromDays (days : Int) : Date :=
  let shifted := days + 719468
  let era := shifted / 146097
  let dayOfEra := (shifted % 146097).toNat
  let yearOfEra := (dayOfEra - dayOfEra / 1460 + dayOfEra / 36524 - dayOfEra / 146096) / 365
  let dayOfYear := dayOfEra - (365 * yearOfEra + yearOfEra / 4 - yearOfEra / 100)
  let fromMarch := (5 * dayOfYear + 2) / 153
  let month := if fromMarch < 10 then fromMarch + 3 else fromMarch - 9
  { year := era * 400 + yearOfEra + if month ≤ 2 then 1 else 0
    month := month
    day := dayOfYear - (153 * fromMarch + 2) / 5 + 1 }

example : civilFromDays 0 = ⟨1970, 1, 1⟩ := by decide
example : civilFromDays 19782 = ⟨2024, 2, 29⟩ := by decide
example : civilFromDays (-1) = ⟨1969, 12, 31⟩ := by decide

def padded (width n : Nat) : String :=
  let digits := Nat.toDigits 10 n
  .ofList (List.replicate (width - digits.length) '0' ++ digits)

/-- Years outside the four digits carry a sign. -/
def yearText (year : Int) : String :=
  if 0 ≤ year ∧ year ≤ 9999 then padded 4 year.toNat
  else (if year < 0 then "-" else "+") ++ padded 4 year.natAbs

def Date.text (d : Date) : String := yearText d.year ++ "-" ++ padded 2 d.month ++ "-" ++ padded 2 d.day

/-- What is read off a wall clock: the weekday counts from Monday. -/
structure LocalTime where
  date : Date
  weekday : Nat
  hour : Nat
  deriving DecidableEq

def localTime (seconds : Int) : LocalTime :=
  let day := seconds / 86400
  { date := civilFromDays day
    weekday := ((day + 3) % 7).toNat
    hour := (seconds % 86400 / 3600).toNat }

theorem localTime_eq {a b : Int} (h : a / 3600 = b / 3600) : localTime a = localTime b := by
  have hday : a / 86400 = b / 86400 := by omega
  have hhour : a % 86400 / 3600 = b % 86400 / 3600 := by omega
  simp only [localTime, hday, hhour]

theorem localTime_of_week {a b : Int} (h : 168 ∣ a / 3600 - b / 3600) :
    (localTime a).weekday = (localTime b).weekday ∧ (localTime a).hour = (localTime b).hour := by
  obtain ⟨k, hk⟩ := h
  have hday : (a / 86400 + 3) % 7 = (b / 86400 + 3) % 7 := by omega
  have hhour : a % 86400 / 3600 = b % 86400 / 3600 := by omega
  simp only [localTime, hday, hhour, and_self]

/-- As many digits of a second as there are: none, three, six or nine. -/
def fractionText (nanos : Nat) : String :=
  if nanos = 0 then ""
  else if nanos % 1000000 = 0 then "." ++ padded 3 (nanos / 1000000)
  else if nanos % 1000 = 0 then "." ++ padded 6 (nanos / 1000)
  else "." ++ padded 9 nanos

/-- `DateTime<Utc>::to_rfc3339` of a number of nanoseconds since 1970. -/
def toRfc3339 (nanos : Int) : String :=
  let seconds := nanos / 1000000000
  let ofDay := (seconds % 86400).toNat
  (civilFromDays (seconds / 86400)).text ++ "T" ++ padded 2 (ofDay / 3600) ++ ":" ++
    padded 2 (ofDay / 60 % 60) ++ ":" ++ padded 2 (ofDay % 60) ++
    fractionText (nanos % 1000000000).toNat ++ "+00:00"

example : toRfc3339 1000000000500000000 = "2001-09-09T01:46:40.500+00:00" := by decide +kernel

end FiveSpot.Calendar
