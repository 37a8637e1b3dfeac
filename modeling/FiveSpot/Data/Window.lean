import Mathlib.Data.List.DropRight
import Mathlib.Order.Lattice

/-!
# Sliding windows

A queue of times, the oldest first: what has left the window is dropped from the front when a time is
added, and so is what is beyond a fixed number. Of a sequence in order, the queue shows the last times of
the window as the whole sequence would.
-/

namespace FiveSpot.Window

set_option autoImplicit false

variable {T : Type} [LinearOrder T]

/-- Add a time and drop what is before the cutoff and beyond the cap. -/
def push (cutoff : T → T) (cap : Nat) (queue : List T) (now : T) : List T :=
  (queue.dropWhile (fun t => t < cutoff now) ++ [now]).rtake cap

def run (cutoff : T → T) (cap : Nat) (ts : List T) : List T := ts.foldl (push cutoff cap) []

def since (c : T) (ts : List T) : List T := ts.filter fun t => c ≤ t

section Last

variable {α : Type}

theorem length_rtake (l : List α) (n : Nat) : (l.rtake n).length = min n l.length := by
  rw [List.rtake, List.length_drop]
  omega

theorem rtake_rtake_append (l m : List α) (n : Nat) : (l.rtake n ++ m).rtake n = (l ++ m).rtake n := by
  simp only [List.rtake_eq_reverse_take_reverse, List.reverse_append, List.reverse_reverse]
  congr 1
  rw [List.take_append, List.take_append, List.take_take, Nat.min_eq_left (Nat.sub_le _ _)]

theorem rtake_append (l m : List α) (n : Nat) :
    (l ++ m).rtake n = l.rtake (n - m.length) ++ m.rtake n := by
  simp only [List.rtake_eq_reverse_take_reverse, List.reverse_append, List.take_append,
    List.length_reverse]

end Last

section Sorted

variable {ts : List T} {c : T}

theorem dropWhile_eq_since (hts : ts.Pairwise (· ≤ ·)) :
    ts.dropWhile (fun t => t < c) = since c ts := by
  induction ts with
  | nil => rfl
  | cons t ts ih =>
    obtain ⟨hfirst, hts⟩ := List.pairwise_cons.mp hts
    by_cases ht : t < c
    · rw [List.dropWhile_cons_of_pos (by simpa using ht), since,
        List.filter_cons_of_neg (by simpa using ht)]
      exact ih hts
    · have hall : ∀ x ∈ t :: ts, c ≤ x := by
        intro x hx
        rcases List.mem_cons.mp hx with rfl | hx
        · exact not_lt.mp ht
        · exact (not_lt.mp ht).trans (hfirst x hx)
      rw [List.dropWhile_cons_of_neg (by simpa using ht), since, List.filter_eq_self.mpr]
      exact fun x hx => decide_eq_true (hall x hx)

theorem exists_append_since (hts : ts.Pairwise (· ≤ ·)) :
    ∃ old, ts = old ++ since c ts ∧ ∀ t ∈ old, t < c := by
  refine ⟨ts.takeWhile fun t => t < c, ?_, fun t ht => ?_⟩
  · rw [← dropWhile_eq_since hts, List.takeWhile_append_dropWhile]
  · have hlt := List.mem_takeWhile_imp (p := fun x => decide (x < c)) ht
    exact of_decide_eq_true hlt

theorem since_rtake (hts : ts.Pairwise (· ≤ ·)) (n : Nat) :
    since c (ts.rtake n) = (since c ts).rtake n := by
  obtain ⟨old, heq, hold⟩ := exists_append_since (c := c) hts
  have hfront : since c (old.rtake (n - (since c ts).length)) = [] := by
    refine List.filter_eq_nil_iff.mpr fun t ht => ?_
    simpa using hold t (List.mem_of_mem_drop ht)
  have hback : since c ((since c ts).rtake n) = (since c ts).rtake n := by
    refine List.filter_eq_self.mpr fun t ht => ?_
    exact (List.mem_filter.mp (List.mem_of_mem_drop ht)).2
  calc since c (ts.rtake n)
      = since c ((old ++ since c ts).rtake n) := by rw [← heq]
    _ = since c (old.rtake (n - (since c ts).length)) ++ since c ((since c ts).rtake n) := by
        rw [rtake_append, since, List.filter_append]
        rfl
    _ = (since c ts).rtake n := by rw [hfront, hback, List.nil_append]

theorem since_since_append {c' : T} (h : c ≤ c') (ts ts' : List T) :
    since c' (since c ts ++ ts') = since c' (ts ++ ts') := by
  simp only [since, List.filter_append, List.filter_filter]
  congr 1
  refine List.filter_congr fun t _ => ?_
  have hle : c' ≤ t → c ≤ t := h.trans
  simpa using hle

end Sorted

section Runs

variable {cutoff : T → T} {cap : Nat} {ts : List T} {now : T}

theorem run_append_singleton (ts : List T) (now : T) :
    run cutoff cap (ts ++ [now]) = push cutoff cap (run cutoff cap ts) now := by
  rw [run, List.foldl_append]
  rfl

theorem push_suffix (queue : List T) (now : T) : push cutoff cap queue now <:+ queue ++ [now] := by
  obtain ⟨old, hold⟩ := List.dropWhile_suffix (l := queue) fun t => decide (t < cutoff now)
  refine (List.drop_suffix _ _).trans ⟨old, ?_⟩
  rw [← List.append_assoc, hold]

theorem run_suffix (ts : List T) : run cutoff cap ts <:+ ts := by
  induction ts using List.reverseRecOn with
  | nil => exact List.suffix_rfl
  | append_singleton ts now ih =>
    rw [run_append_singleton]
    obtain ⟨old, hold⟩ := ih
    refine (push_suffix _ now).trans ⟨old, ?_⟩
    rw [← List.append_assoc, hold]

theorem length_push_le (queue : List T) (now : T) : (push cutoff cap queue now).length ≤ cap := by
  rw [push, length_rtake]
  exact Nat.min_le_left _ _

theorem push_eq {queue : List T} (hqueue : queue.Pairwise (· ≤ ·)) :
    push cutoff cap queue now = (since (cutoff now) queue ++ [now]).rtake cap := by
  rw [push, dropWhile_eq_since hqueue]

/--
At any time that is not before the last one, the queue shows of the window what the sequence itself would,
up to the cap.
-/
theorem since_run (hcutoff : Monotone cutoff) (hts : ts.Pairwise (· ≤ ·)) (hnow : ∀ t ∈ ts, t ≤ now) :
    since (cutoff now) (run cutoff cap ts) = (since (cutoff now) ts).rtake cap := by
  -- the induction adds times at the end; what is seen at the time added is the hypothesis
  induction ts using List.reverseRecOn generalizing now with
  | nil => exact (List.rtake_nil cap).symm
  | append_singleton ts t ih =>
    obtain ⟨hsorted, _, hlast⟩ := List.pairwise_append.mp hts
    have ht : ∀ x ∈ ts, x ≤ t := fun x hx => hlast x hx t (List.mem_singleton.mpr rfl)
    have hle : cutoff t ≤ cutoff now :=
      hcutoff (hnow t (List.mem_append_right _ (List.mem_singleton.mpr rfl)))
    have hkept : (since (cutoff t) ts ++ [t]).Pairwise (· ≤ ·) :=
      hts.sublist (List.Sublist.append_right List.filter_sublist [t])
    rw [run_append_singleton, push_eq (hsorted.sublist (run_suffix ts).sublist), ih hsorted ht,
      rtake_rtake_append, since_rtake hkept, since_since_append hle]

/-- After a time is added, the queue is what the sequence has in the window, up to the cap. -/
theorem run_eq_since (hcutoff : Monotone cutoff) (hle : cutoff now ≤ now)
    (hts : (ts ++ [now]).Pairwise (· ≤ ·)) :
    run cutoff cap (ts ++ [now]) = (since (cutoff now) (ts ++ [now])).rtake cap := by
  obtain ⟨hsorted, _, hlast⟩ := List.pairwise_append.mp hts
  have hnow : ∀ t ∈ ts, t ≤ now := fun t ht => hlast t ht now (List.mem_singleton.mpr rfl)
  have hin : since (cutoff now) [now] = [now] := List.filter_cons_of_pos (decide_eq_true hle)
  rw [run_append_singleton, push_eq (hsorted.sublist (run_suffix ts).sublist),
    since_run hcutoff hsorted hnow, rtake_rtake_append]
  congr 1
  rw [since, since, List.filter_append]
  exact congrArg _ hin.symm

end Runs

end FiveSpot.Window
