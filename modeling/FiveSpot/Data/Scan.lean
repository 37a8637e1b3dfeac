import Mathlib.Data.Int.LeastGreatest
import Mathlib.Tactic.Common

/-!
# Scanning a grid for a change

A yes-or-no question about time is asked at evenly spaced points until its answer changes. Between two
points nothing is asked, so the change that is found is the next one only if that is on the grid.
-/

namespace FiveSpot.Scan

set_option autoImplicit false

variable {ε : Type} {f : Int → Except ε Bool} {current : Bool} {step : Int}

/-- The first of `n` points, `step` apart from `start` on, at which `f` is not `current`. -/
def firstChange (f : Int → Except ε Bool) (current : Bool) (step : Int) :
    (n : Nat) → (start : Int) → Except ε (Option Int)
  | 0, _ => .ok none
  | n + 1, start =>
      match f start with
      | .error e => .error e
      | .ok b => if b = current then firstChange f current step n (start + step) else .ok (some start)

def floorTo (step t : Int) : Int := t - t % step

/-- `t` is among the `n` points from `start` on and the first of them at which there is a change. -/
structure IsFirstChange (f : Int → Except ε Bool) (current : Bool) (step : Int) (n : Nat)
    (start t : Int) : Prop where
  grid : step ∣ t - start
  after : start ≤ t
  within : t < start + n * step
  change : f t = .ok (!current)
  same : ∀ s, step ∣ s - start → start ≤ s → s < t → f s = .ok current

theorem add_step_le {start t : Int} (hgrid : step ∣ t - start) (hlt : start < t) :
    start + step ≤ t := by
  have := Int.le_of_dvd (by omega) hgrid
  omega

theorem dvd_sub_add_step_iff {start t : Int} : step ∣ t - (start + step) ↔ step ∣ t - start := by
  rw [show t - (start + step) = t - start - step by omega]
  constructor
  · intro h
    rw [show t - start = t - start - step + step by omega]
    exact Int.dvd_add h (Int.dvd_refl step)
  · intro h
    exact Int.dvd_sub h (Int.dvd_refl step)

theorem isFirstChange_succ_iff (hstep : 0 < step) {n : Nat} {start t : Int}
    (hsame : f start = .ok current) :
    IsFirstChange f current step (n + 1) start t ↔ IsFirstChange f current step n (start + step) t := by
  have hlast : start + step + n * step = start + ((n + 1 : Nat) : Int) * step := by
    rw [Int.natCast_succ, Int.add_mul, Int.one_mul]
    omega
  constructor
  · intro h
    have hne : start ≠ t := by
      rintro rfl
      have hboth := h.change.symm.trans hsame
      simp at hboth
    refine ⟨dvd_sub_add_step_iff.mpr h.grid, add_step_le h.grid (by have := h.after; omega),
      by rw [hlast]; exact h.within, h.change, fun s hgrid hs hst => ?_⟩
    exact h.same s (dvd_sub_add_step_iff.mp hgrid) (by omega) hst
  · intro h
    have hafter := h.after
    refine ⟨dvd_sub_add_step_iff.mp h.grid, by omega, by rw [← hlast]; exact h.within, h.change,
      fun s hgrid hs hst => ?_⟩
    by_cases heq : start = s
    · exact heq ▸ hsame
    · exact h.same s (dvd_sub_add_step_iff.mpr hgrid) (add_step_le hgrid (by omega)) hst

theorem firstChange_eq_some_iff (hstep : 0 < step) {n : Nat} {start t : Int} :
    firstChange f current step n start = .ok (some t) ↔ IsFirstChange f current step n start t := by
  induction n generalizing start with
  | zero =>
    refine ⟨(nomatch ·), fun h => ?_⟩
    have := h.after
    have := h.within
    omega
  | succ n ih =>
    unfold firstChange
    split
    · rename_i e herror
      refine ⟨(nomatch ·), fun h => ?_⟩
      by_cases heq : start = t
      · subst heq
        exact absurd (herror.symm.trans h.change) (by simp)
      · have hstart := h.same start (by simp) (Int.le_refl start) (by have := h.after; omega)
        exact absurd (herror.symm.trans hstart) (by simp)
    · rename_i b hb
      split
      · rename_i hsame
        subst hsame
        rw [ih, isFirstChange_succ_iff hstep hb]
      · rename_i hchange
        constructor
        · intro h
          obtain rfl : start = t := by simpa using h
          refine ⟨by simp, Int.le_refl start, ?_, ?_, fun s _ hs hst => by omega⟩
          · have : (0 : Int) < ((n + 1 : Nat) : Int) * step := Int.mul_pos (by omega) hstep
            omega
          · rw [hb]
            cases b <;> cases current <;> simp_all
        · intro h
          by_cases heq : start = t
          · rw [heq]
          · have hstart := h.same start (by simp) (Int.le_refl start) (by have := h.after; omega)
            rw [hb] at hstart
            exact absurd (Except.ok.inj hstart) hchange

theorem eq_of_firstChange_eq_none {n : Nat} {start : Int}
    (h : firstChange f current step n start = .ok none) {i : Nat} (hi : i < n) :
    f (start + i * step) = .ok current := by
  induction n generalizing start i with
  | zero => exact absurd hi (Nat.not_lt_zero i)
  | succ n ih =>
    unfold firstChange at h
    split at h
    · cases h
    · rename_i b hb
      split at h
      · rename_i hsame
        subst hsame
        cases i with
        | zero => simpa using hb
        | succ i =>
          have hnext := ih h (Nat.lt_of_succ_lt_succ hi)
          rw [Int.natCast_succ, Int.add_mul, Int.one_mul, Int.add_comm (i * step),
            ← Int.add_assoc]
          exact hnext
      · cases h

theorem firstChange_ok (hf : ∀ t, ∃ b, f t = .ok b) (n : Nat) (start : Int) :
    ∃ found, firstChange f current step n start = .ok found := by
  induction n generalizing start with
  | zero => exact ⟨none, rfl⟩
  | succ n ih =>
    obtain ⟨b, hb⟩ := hf start
    unfold firstChange
    rw [hb]
    by_cases hsame : b = current
    · simpa [hsame] using ih (start + step)
    · simp [hsame]

theorem IsFirstChange.of_later {n : Nat} {start start' t : Int}
    (h : IsFirstChange f current step n start t) (hgrid : step ∣ start' - start)
    (hstart : start ≤ start') (ht : start' ≤ t) : IsFirstChange f current step n start' t where
  grid := by
    rw [show t - start' = t - start - (start' - start) by omega]
    exact Int.dvd_sub h.grid hgrid
  after := ht
  within := by
    have := h.within
    omega
  change := h.change
  same s hs hle hst := by
    refine h.same s ?_ (by omega) hst
    rw [show s - start = s - start' + (start' - start) by omega]
    exact Int.dvd_add hs hgrid

section Floor

theorem floorTo_le (hstep : 0 < step) (t : Int) : floorTo step t ≤ t := by
  have := Int.emod_nonneg t (Int.ne_of_gt hstep)
  unfold floorTo
  omega

theorem lt_floorTo_add (hstep : 0 < step) (t : Int) : t < floorTo step t + step := by
  have := Int.emod_lt_of_pos t hstep
  unfold floorTo
  omega

theorem ediv_eq_of_floorTo_le (hstep : 0 < step) {s t : Int} (hs : floorTo step t ≤ s) (hst : s ≤ t) :
    t / step = s / step := by
  have hfloor : t / step * step = floorTo step t := by
    have := Int.mul_ediv_add_emod t step
    unfold floorTo
    rw [Int.mul_comm]
    omega
  refine Int.le_antisymm ?_ (Int.ediv_le_ediv hstep hst)
  exact Int.le_ediv_of_mul_le hstep (hfloor ▸ hs)

theorem dvd_floorTo_sub_floorTo (s t : Int) : step ∣ floorTo step s - floorTo step t :=
  Int.dvd_sub Int.dvd_self_sub_emod Int.dvd_self_sub_emod

variable {n : Nat} {now t : Int}

theorem IsFirstChange.now_lt (hstep : 0 < step)
    (h : IsFirstChange f current step n (floorTo step now + step) t) : now < t := by
  have := h.after
  have := lt_floorTo_add hstep now
  omega

/-- Started anywhere before the change, the scan finds the same change. -/
theorem IsFirstChange.of_now_le (hstep : 0 < step)
    (h : IsFirstChange f current step n (floorTo step now + step) t) {now' : Int} (hle : now ≤ now')
    (hlt : now' < t) : IsFirstChange f current step n (floorTo step now' + step) t := by
  have hgrid : step ∣ floorTo step now' + step - (floorTo step now + step) := by
    rw [show floorTo step now' + step - (floorTo step now + step) =
      floorTo step now' - floorTo step now by omega]
    exact dvd_floorTo_sub_floorTo now' now
  have hfloor : floorTo step now ≤ floorTo step now' := by
    by_contra hnot
    have hnext : floorTo step now' + step ≤ floorTo step now :=
      add_step_le (dvd_floorTo_sub_floorTo now now') (by omega)
    have := floorTo_le hstep now
    have := lt_floorTo_add hstep now'
    omega
  refine h.of_later hgrid (by omega) (add_step_le ?_ ?_)
  · rw [show t - floorTo step now' = t - (floorTo step now + step) -
      (floorTo step now' + step - (floorTo step now + step)) + step by omega]
    exact Int.dvd_add (Int.dvd_sub h.grid hgrid) (Int.dvd_refl step)
  · have := floorTo_le hstep now'
    omega

end Floor

section NextChange

variable {α : Type} {g : Int → α} {now t : Int}

/-- `t` is the first time after `now` at which `g` is not what it is at `now`. -/
structure IsNextChange (g : Int → α) (now t : Int) : Prop where
  after : now < t
  same : ∀ s, now ≤ s → s < t → g s = g now
  change : g t ≠ g now

theorem IsNextChange.eq {u : Int} (ht : IsNextChange g now t) (hu : IsNextChange g now u) : t = u := by
  by_contra hne
  rcases Int.lt_or_gt_of_ne hne with hlt | hlt
  · exact ht.change (hu.same t (Int.le_of_lt ht.after) hlt)
  · exact hu.change (ht.same u (Int.le_of_lt hu.after) hlt)

theorem exists_isNextChange {s : Int} (hs : now < s) (hchange : g s ≠ g now) :
    ∃ u, IsNextChange g now u ∧ u ≤ s := by
  obtain ⟨u, ⟨hlt, hu⟩, hleast⟩ :=
    Int.exists_least_of_bdd (P := fun z => now < z ∧ g z ≠ g now) ⟨now, fun _ hz => Int.le_of_lt hz.1⟩
      ⟨s, hs, hchange⟩
  refine ⟨u, ⟨hlt, ?_, hu⟩, hleast s ⟨hs, hchange⟩⟩
  intro z hz hzu
  by_contra hne
  have hafter : now < z := by
    rcases Int.lt_or_eq_of_le hz with hlt' | rfl
    · exact hlt'
    · exact absurd rfl hne
  have := hleast z ⟨hafter, hne⟩
  omega

theorem IsFirstChange.isNextChange_iff {n : Nat} (hstep : 0 < step) (hnow : f now = .ok current)
    (h : IsFirstChange f current step n (floorTo step now + step) t) :
    IsNextChange f now t ↔ ∀ u, IsNextChange f now u → step ∣ u := by
  have hfloor : step ∣ floorTo step now := Int.dvd_self_sub_emod
  constructor
  · intro ht u hu
    obtain rfl := ht.eq hu
    have hgrid : step ∣ t - floorTo step now := dvd_sub_add_step_iff.mp h.grid
    exact (Int.dvd_iff_dvd_of_dvd_sub hgrid).mpr hfloor
  · intro hgrid
    have hchange : f t ≠ f now := by
      rw [h.change, hnow]
      simp
    obtain ⟨u, hu, hle⟩ := exists_isNextChange (h.now_lt hstep) hchange
    rcases Int.lt_or_eq_of_le hle with hlt | rfl
    · have hpoint : step ∣ u - floorTo step now := Int.dvd_sub (hgrid u hu) hfloor
      have hbefore : floorTo step now < u := Int.lt_of_le_of_lt (floorTo_le hstep now) hu.after
      have hsame : f u = .ok current :=
        h.same u (dvd_sub_add_step_iff.mpr hpoint) (add_step_le hpoint hbefore) hlt
      exact absurd (hsame.trans hnow.symm) hu.change
    · exact hu

/-- A change is on the grid if between its points nothing changes. -/
theorem IsNextChange.dvd_of_steady {u : Int} (hstep : 0 < step) (hu : IsNextChange g now u)
    (hsteady : g u = g (max now (floorTo step u))) : step ∣ u := by
  by_contra hoff
  have hrest : u % step ≠ 0 := fun hzero => hoff (Int.dvd_of_emod_eq_zero hzero)
  have hlt : floorTo step u < u := by
    have := Int.emod_nonneg u (Int.ne_of_gt hstep)
    unfold floorTo
    omega
  refine hu.change (hsteady.trans (hu.same _ (Int.le_max_left _ _) ?_))
  exact Int.max_lt.mpr ⟨hu.after, hlt⟩

end NextChange

end FiveSpot.Scan
