import Mathlib.Data.Int.Order.Basic
import FiveSpot.Data.Window
import FiveSpot.Machine.Cluster

/-!
# The detector of rapid reclaims

`loop_protection.rs`: the deque of reclaim times forgets what has left the window and what is beyond its
cap. Whether it reports is compared here with the count over all times it was ever given.
-/

namespace FiveSpot.Machine

set_option autoImplicit false

open Window

def shouldWarnRapidReReclaim (events : List Instant) (now : Instant) : Bool :=
  let cutoff := now - rapidReReclaimWindowSecs * nanosPerSecond
  rapidReReclaimThreshold ≤ (events.filter fun t => cutoff ≤ t).length

def dequeAfter (ts : List Instant) : List Instant :=
  ts.foldl (fun events now => (recordEmergencyReclaimEvent events now).1) []

def recentOf (ts : List Instant) (now : Instant) : List Instant :=
  ts.filter fun t => now - rapidReReclaimWindowSecs * nanosPerSecond ≤ t

section Deque

def windowStart (now : Instant) : Instant := now - rapidReReclaimWindowSecs * nanosPerSecond

theorem windowStart_mono {now now' : Instant} (h : now ≤ now') : windowStart now ≤ windowStart now' :=
  Int.sub_le_sub_right h _

theorem windowStart_le (now : Instant) : windowStart now ≤ now := Int.sub_le_self _ (by decide)

theorem recordEmergencyReclaimEvent_fst (events : List Instant) (now : Instant) :
    (recordEmergencyReclaimEvent events now).1 = push windowStart rapidReReclaimMaxTracked events now :=
  rfl

theorem dequeAfter_eq_run (ts : List Instant) :
    dequeAfter ts = run windowStart rapidReReclaimMaxTracked ts := rfl

variable {before : List Instant} {now : Instant}

theorem record_dequeAfter (hts : (before ++ [now]).Pairwise (· ≤ ·)) :
    (recordEmergencyReclaimEvent (dequeAfter before) now).1 =
      (recentOf (before ++ [now]) now).rtake rapidReReclaimMaxTracked := by
  rw [recordEmergencyReclaimEvent_fst, dequeAfter_eq_run, ← run_append_singleton]
  exact run_eq_since (fun _ _ => windowStart_mono) (windowStart_le now) hts

/-- The cap is above the threshold, so that it does not show in the count. -/
theorem threshold_le_length_rtake (ts : List Instant) :
    rapidReReclaimThreshold ≤ (ts.rtake rapidReReclaimMaxTracked).length ↔
      rapidReReclaimThreshold ≤ ts.length := by
  have hcap : rapidReReclaimThreshold ≤ rapidReReclaimMaxTracked := by decide
  rw [length_rtake, Nat.le_min]
  exact and_iff_right hcap

theorem recentOf_record (hts : (before ++ [now]).Pairwise (· ≤ ·)) :
    recentOf (recordEmergencyReclaimEvent (dequeAfter before) now).1 now =
      (recordEmergencyReclaimEvent (dequeAfter before) now).1 := by
  rw [record_dequeAfter hts]
  refine List.filter_eq_self.mpr fun t ht => ?_
  exact (List.mem_filter.mp (List.mem_of_mem_drop ht)).2

end Deque

/--
Each call on a sequence in order reports exactly if enough of all times so far are recent, agrees with the
read-only check of the deque it leaves, and leaves no more than the cap.
-/
theorem detector_exact (ts : List Instant) (hts : ts.Pairwise (· ≤ ·)) (before after : List Instant)
    (now : Instant) (hcall : ts = before ++ now :: after) :
    ((recordEmergencyReclaimEvent (dequeAfter before) now).2 = true ↔
        rapidReReclaimThreshold ≤ (recentOf (before ++ [now]) now).length) ∧
      (recordEmergencyReclaimEvent (dequeAfter before) now).2 =
        shouldWarnRapidReReclaim (recordEmergencyReclaimEvent (dequeAfter before) now).1 now ∧
      (recordEmergencyReclaimEvent (dequeAfter before) now).1.length ≤ rapidReReclaimMaxTracked := by
  have hsorted : (before ++ [now]).Pairwise (· ≤ ·) := by
    have hsplit : ts = (before ++ [now]) ++ after := by
      rw [hcall, List.append_assoc, List.singleton_append]
    refine hts.sublist ?_
    rw [hsplit]
    exact List.sublist_append_left _ _
  have hwarned : (recordEmergencyReclaimEvent (dequeAfter before) now).2 = decide
      (rapidReReclaimThreshold ≤ (recordEmergencyReclaimEvent (dequeAfter before) now).1.length) := rfl
  refine ⟨?_, ?_, ?_⟩
  · rw [hwarned, decide_eq_true_eq, record_dequeAfter hsorted]
    exact threshold_le_length_rtake _
  · have hcheck : shouldWarnRapidReReclaim (recordEmergencyReclaimEvent (dequeAfter before) now).1 now =
        decide (rapidReReclaimThreshold ≤
          (recentOf (recordEmergencyReclaimEvent (dequeAfter before) now).1 now).length) := rfl
    rw [hwarned, hcheck, recentOf_record hsorted]
  · rw [recordEmergencyReclaimEvent_fst]
    exact length_push_le _ _

/-- Twelve times at once and one ten minutes later: nothing has left the window, and the cap is met. -/
theorem detector_of_thirteen :
    (recordEmergencyReclaimEvent (dequeAfter (List.replicate 12 0)) (600 * nanosPerSecond)).2 = true ∧
      (recordEmergencyReclaimEvent (dequeAfter (List.replicate 12 0)) (600 * nanosPerSecond)).1.length =
        rapidReReclaimMaxTracked ∧
      ((recordEmergencyReclaimEvent (dequeAfter (List.replicate 12 0)) (600 * nanosPerSecond)).2 = true ↔
        rapidReReclaimThreshold ≤
          (recentOf (List.replicate 12 0 ++ [600 * nanosPerSecond]) (600 * nanosPerSecond)).length) :=
  ⟨by decide, by decide, (detector_exact (List.replicate 12 0 ++ [600 * nanosPerSecond]) (by decide)
    (List.replicate 12 0) [] (600 * nanosPerSecond) rfl).1⟩

end FiveSpot.Machine
