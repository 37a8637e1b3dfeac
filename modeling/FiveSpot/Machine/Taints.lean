import Mathlib.Data.List.Nodup
import FiveSpot.Machine.Projection

/-!
# Plans for the taints of a Node

What `diff_node_taints` plans and what `apply_node_taints` makes of a list of taints with that plan. The
plan is made for one reading of the Node and may be applied to another.
-/

namespace FiveSpot.Machine

set_option autoImplicit false

/-- What identifies a taint; its value may change. -/
def Taint.identity (t : Taint) : String × String := (t.key, t.effect)

def NodeTaint.identity (t : NodeTaint) : String × String := t.toTaint.identity

def taintAt (taints : List Taint) (i : String × String) : Option Taint :=
  taints.find? fun t => t.identity == i

def Distinct (taints : List Taint) : Prop := (taints.map Taint.identity).Nodup

def DistinctDesired (taints : List NodeTaint) : Prop := (taints.map NodeTaint.identity).Nodup

instance (taints : List Taint) : Decidable (Distinct taints) :=
  inferInstanceAs (Decidable (List.Nodup _))

instance (taints : List NodeTaint) : Decidable (DistinctDesired taints) :=
  inferInstanceAs (Decidable (List.Nodup _))

section Identity

theorem TaintEffect.text_injective : Function.Injective TaintEffect.text := by
  intro a b h
  cases a <;> cases b <;> first | rfl | (simp [TaintEffect.text] at h)

theorem taintMatches_iff {t : Taint} {n : NodeTaint} :
    taintMatches t n.key n.effect = true ↔ t.identity = n.identity := by
  simp [taintMatches, Taint.identity, NodeTaint.identity, NodeTaint.toTaint]

theorem sameIdentity_iff {a b : NodeTaint} :
    (a.key == b.key && a.effect == b.effect) = true ↔ a.identity = b.identity := by
  simp [Taint.identity, NodeTaint.identity, NodeTaint.toTaint, TaintEffect.text_injective.eq_iff]

theorem effectFromStr_eq_some_iff {s : String} {e : TaintEffect} :
    effectFromStr s = some e ↔ s = e.text := by
  unfold effectFromStr
  cases e <;> simp only [TaintEffect.text] <;> split_ifs with h₁ h₂ h₃ <;> simp_all

theorem findCurrent_eq (current : List Taint) (n : NodeTaint) :
    findCurrent current n = taintAt current n.identity := by
  unfold findCurrent taintAt
  congr 1
  funext t
  rw [Bool.eq_iff_iff, Bool.and_eq_true, beq_iff_eq, beq_iff_eq, effectFromStr_eq_some_iff, beq_iff_eq]
  simp [Taint.identity, NodeTaint.identity, NodeTaint.toTaint]

theorem identity_of_taintAt {taints : List Taint} {i : String × String} {t : Taint}
    (h : taintAt taints i = some t) : t ∈ taints ∧ t.identity = i :=
  ⟨List.mem_of_find?_eq_some h, by simpa using List.find?_some h⟩

theorem taintAt_eq_none_iff {taints : List Taint} {i : String × String} :
    taintAt taints i = none ↔ i ∉ taints.map Taint.identity := by
  simp [taintAt]

theorem toTaint_eq_of {t : Taint} {n : NodeTaint} (hidentity : t.identity = n.identity)
    (hvalue : t.value = n.value) : n.toTaint = t := by
  obtain ⟨key, value, effect⟩ := t
  obtain ⟨hkey, heffect⟩ := Prod.mk.inj hidentity
  simp only at hkey heffect hvalue
  subst hkey heffect hvalue
  rfl

end Identity

section Plan

variable (current : List Taint) (desired applied : List NodeTaint)

def isUpdate (want : NodeTaint) : Bool :=
  (findCurrent current want).any fun cur =>
    cur.value != want.value && (findApplied applied want).any fun p => p.value == cur.value

/-- A recorded taint that is no longer desired and still on the Node as it was recorded. -/
def isRemoval (old : NodeTaint) : Bool :=
  !(desired.any fun d => d.key == old.key && d.effect == old.effect) &&
    (findCurrent current old).any fun cur => cur.value == old.value

/-- A desired taint whose place is taken by a taint with another value, not the one recorded. -/
def isForeign (want : NodeTaint) : Bool :=
  (findCurrent current want).any fun cur =>
    cur.value != want.value && !(findApplied applied want).any fun p => p.value == cur.value

/-- A recorded taint that is no longer desired and has another value on the Node. -/
def isAltered (old : NodeTaint) : Bool :=
  !(desired.any fun d => d.key == old.key && d.effect == old.effect) &&
    (findCurrent current old).any fun cur => cur.value != old.value

theorem foldl_planDesired (plan : NodeTaintPlan) :
    (desired.foldl (planDesired current applied) plan).toAdd =
        plan.toAdd ++ desired.filter (fun want => (findCurrent current want).isNone) ∧
      (desired.foldl (planDesired current applied) plan).toUpdate =
        plan.toUpdate ++ desired.filter (isUpdate current applied) ∧
      (desired.foldl (planDesired current applied) plan).toRemove = plan.toRemove ∧
      (desired.foldl (planDesired current applied) plan).conflicts =
        plan.conflicts ++ desired.filter (isForeign current applied) := by
  induction desired generalizing plan with
  | nil => simp
  | cons want desired ih =>
    obtain ⟨hadd, hupdate, hremove, hconflicts⟩ := ih (planDesired current applied plan want)
    rw [List.foldl_cons, hadd, hupdate, hremove, hconflicts]
    unfold planDesired
    split
    case h_1 hnone => simp [hnone, isUpdate, isForeign]
    case h_2 cur hsome =>
      split
      case isTrue heq => simp [hsome, isUpdate, isForeign, eq_of_beq heq]
      case isFalse hne =>
        split
        case isTrue hown =>
          have hown' := hown
          rw [Option.any_eq_true] at hown'
          simp_all [isUpdate, isForeign]
        case isFalse hown => simp_all [isUpdate, isForeign]

theorem foldl_planApplied (plan : NodeTaintPlan) :
    (applied.foldl (planApplied current desired) plan).toAdd = plan.toAdd ∧
      (applied.foldl (planApplied current desired) plan).toUpdate = plan.toUpdate ∧
      (applied.foldl (planApplied current desired) plan).toRemove =
        plan.toRemove ++ applied.filter (isRemoval current desired) ∧
      (applied.foldl (planApplied current desired) plan).conflicts =
        plan.conflicts ++ applied.filter (isAltered current desired) := by
  induction applied generalizing plan with
  | nil => simp
  | cons old applied ih =>
    obtain ⟨hadd, hupdate, hremove, hconflicts⟩ := ih (planApplied current desired plan old)
    rw [List.foldl_cons, hadd, hupdate, hremove, hconflicts]
    unfold planApplied
    split
    case isTrue hdesired => simp [isRemoval, isAltered, hdesired]
    case isFalse hdesired =>
      rw [Bool.not_eq_true] at hdesired
      split
      case h_1 hnone => simp [isRemoval, isAltered, hnone]
      case h_2 cur hsome =>
        split
        case isTrue heq => simp [isRemoval, isAltered, hdesired, hsome, eq_of_beq heq]
        case isFalse hne => simp_all [isRemoval, isAltered]

theorem diff_toAdd : (diffNodeTaints current desired applied).toAdd =
    desired.filter fun want => (findCurrent current want).isNone := by
  rw [diffNodeTaints, (foldl_planApplied current desired applied _).1,
    (foldl_planDesired current desired applied _).1]
  rfl

theorem diff_toUpdate : (diffNodeTaints current desired applied).toUpdate =
    desired.filter (isUpdate current applied) := by
  rw [diffNodeTaints, (foldl_planApplied current desired applied _).2.1,
    (foldl_planDesired current desired applied _).2.1]
  rfl

theorem diff_toRemove : (diffNodeTaints current desired applied).toRemove =
    applied.filter (isRemoval current desired) := by
  rw [diffNodeTaints, (foldl_planApplied current desired applied _).2.2.1,
    (foldl_planDesired current desired applied _).2.2.1]
  rfl

theorem diff_conflicts : (diffNodeTaints current desired applied).conflicts =
    desired.filter (isForeign current applied) ++ applied.filter (isAltered current desired) := by
  rw [diffNodeTaints, (foldl_planApplied current desired applied _).2.2.2,
    (foldl_planDesired current desired applied _).2.2.2]
  rfl

end Plan

section Target

def keptTaints (current : List Taint) (plan : NodeTaintPlan) : List Taint :=
  current.filter fun t => !plan.toRemove.any fun r => taintMatches t r.key r.effect

def updatedTaint (plan : NodeTaintPlan) (t : Taint) : Taint :=
  ((plan.toUpdate.find? fun u => taintMatches t u.key u.effect).map NodeTaint.toTaint).getD t

variable {current second : List Taint} {desired applied : List NodeTaint} {plan : NodeTaintPlan}

theorem targetTaints_eq (current : List Taint) (plan : NodeTaintPlan) : targetTaints current plan =
    (keptTaints current plan).map (updatedTaint plan) ++ plan.toAdd.map NodeTaint.toTaint := by
  unfold targetTaints
  simp only [List.append_cancel_right_eq]
  refine List.map_congr_left fun t _ => ?_
  unfold updatedTaint
  cases plan.toUpdate.find? fun u => taintMatches t u.key u.effect <;> rfl

theorem identity_updatedTaint (t : Taint) : (updatedTaint plan t).identity = t.identity := by
  unfold updatedTaint
  cases hfind : plan.toUpdate.find? fun u => taintMatches t u.key u.effect with
  | none => rfl
  | some u => exact (taintMatches_iff.mp (by simpa using List.find?_some hfind)).symm

theorem map_identity_target : (targetTaints current plan).map Taint.identity =
    (keptTaints current plan).map Taint.identity ++ plan.toAdd.map NodeTaint.identity := by
  rw [targetTaints_eq, List.map_append, List.map_map, List.map_map]
  congr 1
  exact List.map_congr_left fun t _ => identity_updatedTaint t

theorem not_desired_of_toRemove {old want : NodeTaint}
    (hold : old ∈ (diffNodeTaints current desired applied).toRemove) (hwant : want ∈ desired) :
    want.identity ≠ old.identity := by
  rw [diff_toRemove, List.mem_filter] at hold
  intro heq
  have hany : (desired.any fun d => d.key == old.key && d.effect == old.effect) = true :=
    List.any_eq_true.mpr ⟨want, hwant, sameIdentity_iff.mpr heq⟩
  simp [isRemoval, hany] at hold

theorem desired_mem_kept_iff {want : NodeTaint} (hwant : want ∈ desired) :
    want.identity ∈ (keptTaints second (diffNodeTaints current desired applied)).map Taint.identity ↔
      findCurrent second want ≠ none := by
  rw [findCurrent_eq, Ne, taintAt_eq_none_iff, not_not]
  constructor
  · intro h
    obtain ⟨t, ht, heq⟩ := List.mem_map.mp h
    exact List.mem_map.mpr ⟨t, List.mem_of_mem_filter ht, heq⟩
  · intro h
    obtain ⟨t, ht, heq⟩ := List.mem_map.mp h
    refine List.mem_map.mpr ⟨t, List.mem_filter.mpr ⟨ht, ?_⟩, heq⟩
    rw [Bool.not_eq_true', List.any_eq_false]
    intro old hold hmatch
    exact not_desired_of_toRemove hold hwant (heq.symm.trans (taintMatches_iff.mp hmatch))

/--
The list made from a second reading has no duplicates exactly when everything the plan adds is missing in
that reading too.
-/
theorem distinct_target_iff (hdesired : DistinctDesired desired) (hsecond : Distinct second) :
    Distinct (targetTaints second (diffNodeTaints current desired applied)) ↔
      ∀ want ∈ desired, findCurrent current want = none → findCurrent second want = none := by
  have hkept : ((keptTaints second (diffNodeTaints current desired applied)).map
      Taint.identity).Nodup := hsecond.sublist (List.filter_sublist.map _)
  have hadded : ((diffNodeTaints current desired applied).toAdd.map NodeTaint.identity).Nodup := by
    rw [diff_toAdd]
    exact hdesired.sublist (List.filter_sublist.map _)
  rw [Distinct, map_identity_target, List.nodup_append']
  simp only [hkept, hadded, true_and]
  constructor
  · intro hdisjoint want hwant hnone
    by_contra hsome
    refine hdisjoint ((desired_mem_kept_iff hwant).mpr hsome) (List.mem_map.mpr ⟨want, ?_, rfl⟩)
    rw [diff_toAdd, List.mem_filter]
    exact ⟨hwant, by simp [hnone]⟩
  · intro hall i hi hadd
    obtain ⟨want, hwant, rfl⟩ := List.mem_map.mp hadd
    rw [diff_toAdd, List.mem_filter, Option.isNone_iff_eq_none] at hwant
    exact (desired_mem_kept_iff hwant.1).mp hi (hall want hwant.1 hwant.2)

theorem mem_target {t : Taint}
    (ht : t ∈ targetTaints second (diffNodeTaints current desired applied)) :
    t ∈ second ∨ ∃ want ∈ desired, t = want.toTaint := by
  rw [targetTaints_eq] at ht
  rcases List.mem_append.mp ht with ht | ht
  · obtain ⟨t', ht', rfl⟩ := List.mem_map.mp ht
    unfold updatedTaint
    cases hfind : (diffNodeTaints current desired applied).toUpdate.find?
        fun u => taintMatches t' u.key u.effect with
    | none => exact .inl (List.mem_of_mem_filter ht')
    | some u =>
      have hmem := List.mem_of_find?_eq_some hfind
      rw [diff_toUpdate] at hmem
      exact .inr ⟨u, List.mem_of_mem_filter hmem, rfl⟩
  · obtain ⟨want, hwant, rfl⟩ := List.mem_map.mp ht
    rw [diff_toAdd] at hwant
    exact .inr ⟨want, List.mem_of_mem_filter hwant, rfl⟩

theorem taintAt_kept {i : String × String} (hi : ∀ old ∈ plan.toRemove, old.identity ≠ i) :
    taintAt (keptTaints current plan) i = taintAt current i := by
  unfold taintAt keptTaints
  rw [List.find?_filter]
  congr 1
  funext t
  by_cases ht : t.identity = i
  · have hkept : (plan.toRemove.any fun r => taintMatches t r.key r.effect) = false := by
      rw [List.any_eq_false]
      intro old hold hmatch
      exact hi old hold ((taintMatches_iff.mp hmatch).symm.trans ht)
    simp [hkept, ht]
  · simp [ht]

theorem taintAt_map_updated (plan : NodeTaintPlan) (taints : List Taint) (i : String × String) :
    taintAt (taints.map (updatedTaint plan)) i = (taintAt taints i).map (updatedTaint plan) := by
  unfold taintAt
  rw [List.find?_map]
  congr 2
  funext t
  simp [identity_updatedTaint]

theorem recorded_of_toRemove {old : NodeTaint} {t : Taint}
    (hold : old ∈ (diffNodeTaints current desired applied).toRemove)
    (ht : taintAt current old.identity = some t) : old ∈ applied ∧ old.toTaint = t := by
  rw [diff_toRemove, List.mem_filter] at hold
  obtain ⟨hmem, hremoval⟩ := hold
  have hvalue : t.value = old.value := by
    simp only [isRemoval, findCurrent_eq, ht, Option.any_some, Bool.and_eq_true, beq_iff_eq] at hremoval
    exact hremoval.2
  exact ⟨hmem, toTaint_eq_of (identity_of_taintAt ht).2 hvalue⟩

theorem recorded_of_toUpdate {want : NodeTaint} {t : Taint}
    (hwant : want ∈ (diffNodeTaints current desired applied).toUpdate)
    (ht : taintAt current want.identity = some t) : ∃ old ∈ applied, old.toTaint = t := by
  rw [diff_toUpdate, List.mem_filter] at hwant
  have hupdate := hwant.2
  simp only [isUpdate, findCurrent_eq, ht, Option.any_some, Bool.and_eq_true, Option.any_eq_true,
    beq_iff_eq] at hupdate
  obtain ⟨_, old, hfind, hvalue⟩ := hupdate
  have hsame : old.identity = want.identity := sameIdentity_iff.mp (by simpa using List.find?_some hfind)
  exact ⟨old, List.mem_of_find?_eq_some hfind,
    toTaint_eq_of ((identity_of_taintAt ht).2.trans hsame.symm) hvalue.symm⟩

theorem recorded_of_target_ne {i : String × String} {t : Taint} (ht : taintAt current i = some t)
    (hne : taintAt (targetTaints current (diffNodeTaints current desired applied)) i ≠ some t) :
    ∃ old ∈ applied, old.toTaint = t := by
  by_cases hremoved : ∃ old ∈ (diffNodeTaints current desired applied).toRemove, old.identity = i
  · obtain ⟨old, hold, rfl⟩ := hremoved
    obtain ⟨hmem, heq⟩ := recorded_of_toRemove hold ht
    exact ⟨old, hmem, heq⟩
  · have hkept : taintAt (keptTaints current (diffNodeTaints current desired applied)) i = some t :=
      (taintAt_kept fun old hold heq => hremoved ⟨old, hold, heq⟩).trans ht
    have htarget : taintAt (targetTaints current (diffNodeTaints current desired applied)) i =
        some (updatedTaint (diffNodeTaints current desired applied) t) := by
      have hmap := taintAt_map_updated (diffNodeTaints current desired applied)
        (keptTaints current (diffNodeTaints current desired applied)) i
      rw [hkept] at hmap
      unfold taintAt at hmap ⊢
      rw [targetTaints_eq, List.find?_append, hmap]
      rfl
    rw [htarget] at hne
    unfold updatedTaint at hne
    cases hfind : (diffNodeTaints current desired applied).toUpdate.find?
        fun u => taintMatches t u.key u.effect with
    | none => simp [hfind] at hne
    | some want =>
      have hsame := taintMatches_iff.mp (by simpa using List.find?_some hfind)
      refine recorded_of_toUpdate (List.mem_of_find?_eq_some hfind) ?_
      rw [← hsame, (identity_of_taintAt ht).2]
      exact ht

end Target

end FiveSpot.Machine
