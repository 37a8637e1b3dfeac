import Mathlib.Logic.Function.Iterate
import FiveSpot.Effects.Oracle
import FiveSpot.Machine.TaintPatches

/-!
# Taints that settle

What a plan without conflicts makes of the list it was made for: every desired taint is there once, with
its value, those recorded and no longer desired are gone, and the rest stands as it stood. A second plan
finds nothing to do, as long as the API server gives back what was written.
-/

namespace FiveSpot.Machine

set_option autoImplicit false

open Effects Effects.Prog

section Lists

variable {taints : List Taint} {t : Taint} {i : String × String}

theorem taintAt_of_mem (hdistinct : Distinct taints) (ht : t ∈ taints) :
    taintAt taints t.identity = some t := by
  induction taints with
  | nil => cases ht
  | cons head rest ih =>
    obtain ⟨hhead, hrest⟩ := List.nodup_cons.mp hdistinct
    unfold taintAt
    rcases List.mem_cons.mp ht with rfl | hmem
    · simp
    · have hne : head.identity ≠ t.identity := by
        intro heq
        exact hhead (heq ▸ List.mem_map_of_mem hmem)
      rw [List.find?_cons_of_neg (by simpa using hne)]
      exact ih hrest hmem

theorem filter_identity (hdistinct : Distinct taints) (ht : taintAt taints i = some t) :
    taints.filter (fun t => t.identity == i) = [t] := by
  induction taints with
  | nil => cases ht
  | cons head rest ih =>
    obtain ⟨hhead, hrest⟩ := List.nodup_cons.mp hdistinct
    unfold taintAt at ht
    by_cases heq : head.identity = i
    · rw [List.find?_cons_of_pos (by simpa using heq)] at ht
      obtain rfl := Option.some.inj ht
      rw [List.filter_cons_of_pos (by simpa using heq), List.filter_eq_nil_iff.mpr]
      intro other hother hsame
      rw [beq_iff_eq, ← heq] at hsame
      exact hhead (hsame ▸ List.mem_map_of_mem hother)
    · rw [List.find?_cons_of_neg (by simpa using heq)] at ht
      rw [List.filter_cons_of_neg (by simpa using heq)]
      exact ih hrest ht

theorem eq_of_identity {desired : List NodeTaint} (hdesired : DistinctDesired desired) {a b : NodeTaint}
    (ha : a ∈ desired) (hb : b ∈ desired) (h : a.identity = b.identity) : a = b :=
  List.inj_on_of_nodup_map hdesired ha hb h

end Lists

section Settling

variable {current : List Taint} {desired applied : List NodeTaint}

def Settled (taints : List Taint) (desired : List NodeTaint) : Prop :=
  ∀ want ∈ desired, taintAt taints want.identity = some want.toTaint

theorem value_of_no_conflict (hok : (diffNodeTaints current desired applied).conflicts = [])
    {want : NodeTaint} (hwant : want ∈ desired) {cur : Taint}
    (hcur : taintAt current want.identity = some cur) :
    cur.value = want.value ∨ isUpdate current applied want = true := by
  rw [diff_conflicts, List.append_eq_nil_iff, List.filter_eq_nil_iff] at hok
  have hforeign := hok.1 want hwant
  by_cases hvalue : cur.value = want.value
  · exact .inl hvalue
  · right
    simp only [isForeign, isUpdate, findCurrent_eq, hcur, Option.any_some] at hforeign ⊢
    simpa [hvalue] using hforeign

theorem updatedTaint_of_mem (hdesired : DistinctDesired desired) {want : NodeTaint} {cur : Taint}
    (hwant : want ∈ (diffNodeTaints current desired applied).toUpdate)
    (hcur : cur.identity = want.identity) :
    updatedTaint (diffNodeTaints current desired applied) cur = want.toTaint := by
  have hsub : ∀ u ∈ (diffNodeTaints current desired applied).toUpdate, u ∈ desired := by
    intro u hu
    rw [diff_toUpdate] at hu
    exact List.mem_of_mem_filter hu
  unfold updatedTaint
  cases hfind : (diffNodeTaints current desired applied).toUpdate.find?
      fun u => taintMatches cur u.key u.effect with
  | none =>
    have hmatch := List.find?_eq_none.mp hfind want hwant
    exact absurd (taintMatches_iff.mpr hcur) hmatch
  | some u =>
    have hu : cur.identity = u.identity := taintMatches_iff.mp (by simpa using List.find?_some hfind)
    have heq := eq_of_identity hdesired (hsub u (List.mem_of_find?_eq_some hfind)) (hsub want hwant)
      (hu.symm.trans hcur)
    rw [heq]
    rfl

theorem updatedTaint_of_notMem {cur : Taint}
    (h : ∀ u ∈ (diffNodeTaints current desired applied).toUpdate, cur.identity ≠ u.identity) :
    updatedTaint (diffNodeTaints current desired applied) cur = cur := by
  have hnone : (diffNodeTaints current desired applied).toUpdate.find?
      (fun u => taintMatches cur u.key u.effect) = none :=
    List.find?_eq_none.mpr fun u hu hmatch => h u hu (taintMatches_iff.mp hmatch)
  rw [updatedTaint, hnone]
  rfl

theorem mem_kept_of_desired {want : NodeTaint} (hwant : want ∈ desired) {cur : Taint}
    (hmem : cur ∈ current) (hidentity : cur.identity = want.identity) :
    cur ∈ keptTaints current (diffNodeTaints current desired applied) := by
  refine List.mem_filter.mpr ⟨hmem, ?_⟩
  rw [Bool.not_eq_true', List.any_eq_false]
  intro old hold hmatch
  exact not_desired_of_toRemove hold hwant (hidentity.symm.trans (taintMatches_iff.mp hmatch))

theorem toTaint_mem_target (hdesired : DistinctDesired desired)
    (hok : (diffNodeTaints current desired applied).conflicts = []) {want : NodeTaint}
    (hwant : want ∈ desired) :
    want.toTaint ∈ targetTaints current (diffNodeTaints current desired applied) := by
  rw [targetTaints_eq, List.mem_append]
  cases hcur : taintAt current want.identity with
  | none =>
    right
    refine List.mem_map_of_mem ?_
    rw [diff_toAdd, List.mem_filter, findCurrent_eq, hcur]
    exact ⟨hwant, rfl⟩
  | some cur =>
    left
    obtain ⟨hmem, hidentity⟩ := identity_of_taintAt hcur
    refine List.mem_map.mpr ⟨cur, mem_kept_of_desired hwant hmem hidentity, ?_⟩
    by_cases hupdate : isUpdate current applied want = true
    · refine updatedTaint_of_mem hdesired ?_ hidentity
      rw [diff_toUpdate]
      exact List.mem_filter.mpr ⟨hwant, hupdate⟩
    · have hvalue := (value_of_no_conflict hok hwant hcur).resolve_right hupdate
      rw [toTaint_eq_of hidentity hvalue]
      refine updatedTaint_of_notMem fun u hu hsame => hupdate ?_
      rw [diff_toUpdate] at hu
      obtain ⟨hu, hupdate'⟩ := List.mem_filter.mp hu
      rwa [eq_of_identity hdesired hwant hu (hidentity.symm.trans hsame)]

theorem distinct_target (hcurrent : Distinct current) (hdesired : DistinctDesired desired) :
    Distinct (targetTaints current (diffNodeTaints current desired applied)) :=
  (distinct_target_iff hdesired hcurrent).mpr fun _ _ h => h

theorem settled_target (hcurrent : Distinct current) (hdesired : DistinctDesired desired)
    (hok : (diffNodeTaints current desired applied).conflicts = []) :
    Settled (targetTaints current (diffNodeTaints current desired applied)) desired := by
  intro want hwant
  exact taintAt_of_mem (distinct_target hcurrent hdesired) (toTaint_mem_target hdesired hok hwant)

theorem diff_of_settled (h : Settled current desired) :
    (diffNodeTaints current desired desired).isNoop = true ∧
      (diffNodeTaints current desired desired).conflicts = [] := by
  have hfound : ∀ want ∈ desired, findCurrent current want = some want.toTaint := by
    intro want hwant
    rw [findCurrent_eq]
    exact h want hwant
  have hstill : ∀ old ∈ desired,
      (desired.any fun d => d.key == old.key && d.effect == old.effect) = true := by
    intro old hold
    exact List.any_eq_true.mpr ⟨old, hold, by simp⟩
  have hvalue : ∀ n : NodeTaint, n.toTaint.value = n.value := fun _ => rfl
  constructor
  · simp only [NodeTaintPlan.isNoop, Bool.and_eq_true, List.isEmpty_iff, diff_toAdd, diff_toUpdate,
      diff_toRemove, List.filter_eq_nil_iff]
    refine ⟨⟨fun want hwant => ?_, fun want hwant => ?_⟩, fun old hold => ?_⟩
    · simp [hfound want hwant]
    · simp [isUpdate, hfound want hwant, hvalue]
    · simp [isRemoval, hstill old hold]
  · rw [diff_conflicts, List.append_eq_nil_iff, List.filter_eq_nil_iff, List.filter_eq_nil_iff]
    refine ⟨fun want hwant => ?_, fun old hold => ?_⟩
    · simp [isForeign, hfound want hwant, hvalue]
    · simp [isAltered, hstill old hold]

theorem target_of_isNoop {plan : NodeTaintPlan} (h : plan.isNoop = true) :
    targetTaints current plan = current := by
  simp only [NodeTaintPlan.isNoop, Bool.and_eq_true, List.isEmpty_iff] at h
  obtain ⟨⟨hadd, hupdate⟩, hremove⟩ := h
  simp [targetTaints, hadd, hupdate, hremove]

theorem identity_ne_of_dropped (hok : (diffNodeTaints current desired applied).conflicts = [])
    {old : NodeTaint} (hold : old ∈ applied) (hdropped : ∀ want ∈ desired, want.identity ≠ old.identity)
    {t : Taint} (ht : t ∈ targetTaints current (diffNodeTaints current desired applied)) :
    t.identity ≠ old.identity := by
  have hmem := List.mem_map_of_mem (f := Taint.identity) ht
  rw [map_identity_target] at hmem
  intro heq
  rw [heq] at hmem
  have hnot : (desired.any fun d => d.key == old.key && d.effect == old.effect) = false := by
    rw [List.any_eq_false]
    exact fun want hwant hsame => hdropped want hwant (sameIdentity_iff.mp hsame)
  rcases List.mem_append.mp hmem with hkept | hadded
  · obtain ⟨cur, hcur, hidentity⟩ := List.mem_map.mp hkept
    obtain ⟨hcurrent, hnotRemoved⟩ := List.mem_filter.mp hcur
    rw [Bool.not_eq_true', List.any_eq_false] at hnotRemoved
    -- the Node has a taint of this identity, so the plan either removes it or reports it
    obtain ⟨found, hfound⟩ : ∃ found, findCurrent current old = some found := by
      refine Option.ne_none_iff_exists'.mp fun hnone => ?_
      rw [findCurrent_eq, taintAt_eq_none_iff] at hnone
      exact hnone (hidentity ▸ List.mem_map_of_mem hcurrent)
    rw [diff_conflicts, List.append_eq_nil_iff, List.filter_eq_nil_iff, List.filter_eq_nil_iff] at hok
    have haltered := hok.2 old hold
    refine hnotRemoved old ?_ (taintMatches_iff.mpr hidentity)
    rw [diff_toRemove]
    refine List.mem_filter.mpr ⟨hold, ?_⟩
    simpa [isAltered, isRemoval, hnot, hfound] using haltered
  · obtain ⟨want, hwant, hidentity⟩ := List.mem_map.mp hadded
    rw [diff_toAdd] at hwant
    exact hdropped want (List.mem_of_mem_filter hwant) hidentity

end Settling

section Stamps

/-- A taint as a Node has it, with the time it was added at. -/
structure StampedTaint extends Taint where
  timeAdded : Option Instant
  deriving DecidableEq

def NodeTaint.unstamped (t : NodeTaint) : StampedTaint := { t.toTaint with timeAdded := none }

def NodeTaintPlan.keeps (plan : NodeTaintPlan) (t : StampedTaint) : Bool :=
  !plan.toRemove.any fun r => taintMatches t.toTaint r.key r.effect

def NodeTaintPlan.updated (plan : NodeTaintPlan) (t : StampedTaint) : StampedTaint :=
  match plan.toUpdate.find? fun u => taintMatches t.toTaint u.key u.effect with
  | some update => update.unstamped
  | none => t

/-- The list `apply_node_taints` builds, with the stamps of the taints it keeps. -/
def stampedTarget (current : List StampedTaint) (plan : NodeTaintPlan) : List StampedTaint :=
  (current.filter plan.keeps).map plan.updated ++ plan.toAdd.map NodeTaint.unstamped

variable {current : List StampedTaint} {desired applied : List NodeTaint}

theorem toTaint_updated (plan : NodeTaintPlan) (t : StampedTaint) :
    (plan.updated t).toTaint = updatedTaint plan t.toTaint := by
  unfold NodeTaintPlan.updated updatedTaint
  cases plan.toUpdate.find? fun u => taintMatches t.toTaint u.key u.effect <;> rfl

theorem map_toTaint_stampedTarget (plan : NodeTaintPlan) :
    (stampedTarget current plan).map StampedTaint.toTaint =
      targetTaints (current.map StampedTaint.toTaint) plan := by
  rw [targetTaints_eq, stampedTarget, List.map_append, List.map_map, List.map_map, keptTaints,
    List.filter_map, List.map_map]
  congr 1
  exact List.map_congr_left fun t _ => toTaint_updated plan t

/-- Neither desired nor recorded. -/
def isOther (desired applied : List NodeTaint) (t : StampedTaint) : Bool :=
  !(desired ++ applied).any fun n => n.identity == t.toTaint.identity

theorem isOther_iff {t : StampedTaint} :
    isOther desired applied t = true ↔ ∀ n ∈ desired ++ applied, n.identity ≠ t.toTaint.identity := by
  rw [isOther, Bool.not_eq_true', List.any_eq_false]
  simp only [beq_iff_eq, Ne]

variable {taints : List Taint} {t : StampedTaint}

theorem keeps_of_isOther (h : isOther desired applied t = true) :
    (diffNodeTaints taints desired applied).keeps t = true := by
  rw [NodeTaintPlan.keeps, Bool.not_eq_true', List.any_eq_false]
  intro r hr hmatch
  rw [diff_toRemove] at hr
  exact isOther_iff.mp h r (List.mem_append_right _ (List.mem_of_mem_filter hr))
    (taintMatches_iff.mp hmatch).symm

theorem updated_of_isOther (h : isOther desired applied t = true) :
    (diffNodeTaints taints desired applied).updated t = t := by
  have hnone : (diffNodeTaints taints desired applied).toUpdate.find?
      (fun u => taintMatches t.toTaint u.key u.effect) = none := by
    refine List.find?_eq_none.mpr fun u hu hmatch => ?_
    rw [diff_toUpdate] at hu
    exact isOther_iff.mp h u (List.mem_append_left _ (List.mem_of_mem_filter hu))
      (taintMatches_iff.mp hmatch).symm
  rw [NodeTaintPlan.updated, hnone]

theorem isOther_updated (plan : NodeTaintPlan) :
    isOther desired applied (plan.updated t) = isOther desired applied t := by
  rw [isOther, isOther, toTaint_updated, identity_updatedTaint]

theorem filter_isOther_stampedTarget :
    (stampedTarget current (diffNodeTaints taints desired applied)).filter (isOther desired applied) =
      current.filter (isOther desired applied) := by
  have hadded : ((diffNodeTaints taints desired applied).toAdd.map NodeTaint.unstamped).filter
      (isOther desired applied) = [] := by
    refine List.filter_eq_nil_iff.mpr fun t ht hother => ?_
    obtain ⟨want, hwant, rfl⟩ := List.mem_map.mp ht
    rw [diff_toAdd] at hwant
    exact isOther_iff.mp hother want (List.mem_append_left _ (List.mem_of_mem_filter hwant)) rfl
  have hkept : (current.filter (diffNodeTaints taints desired applied).keeps).filter
      (isOther desired applied) = current.filter (isOther desired applied) := by
    rw [List.filter_filter]
    refine List.filter_congr fun t _ => ?_
    cases hother : isOther desired applied t with
    | false => rfl
    | true => exact keeps_of_isOther hother
  have hcomp : isOther desired applied ∘ (diffNodeTaints taints desired applied).updated =
      isOther desired applied := funext fun t => isOther_updated _
  rw [stampedTarget, List.filter_append, hadded, List.append_nil, List.filter_map, hcomp, hkept]
  calc (current.filter (isOther desired applied)).map (diffNodeTaints taints desired applied).updated
      = (current.filter (isOther desired applied)).map id :=
        List.map_congr_left fun t ht => updated_of_isOther (List.mem_filter.mp ht).2
    _ = current.filter (isOther desired applied) := List.map_id _

end Stamps

/-- A plan without conflicts, carried out on the list it was made for: every desired taint once with
its value, nothing recorded that is no longer desired, and the rest unchanged and in its order; a second
plan is a no-op without conflicts. -/
theorem taints_converge_with_frame (current : List StampedTaint) (desired applied : List NodeTaint)
    (hcurrent : Distinct (current.map StampedTaint.toTaint)) (hdesired : DistinctDesired desired)
    (hok : (diffNodeTaints (current.map StampedTaint.toTaint) desired applied).conflicts = []) :
    let target := stampedTarget current
      (diffNodeTaints (current.map StampedTaint.toTaint) desired applied)
    let again := diffNodeTaints (target.map StampedTaint.toTaint) desired desired
    (∀ want ∈ desired, (target.map StampedTaint.toTaint).filter
        (fun t => t.identity == want.identity) = [want.toTaint]) ∧
      (∀ old ∈ applied, (∀ want ∈ desired, want.identity ≠ old.identity) →
        ∀ t ∈ target, t.toTaint.identity ≠ old.identity) ∧
      target.filter (isOther desired applied) = current.filter (isOther desired applied) ∧
      again.isNoop = true ∧ again.conflicts = [] := by
  have hsettled := settled_target hcurrent hdesired hok
  have hmap : (stampedTarget current
      (diffNodeTaints (current.map StampedTaint.toTaint) desired applied)).map StampedTaint.toTaint =
        targetTaints (current.map StampedTaint.toTaint)
          (diffNodeTaints (current.map StampedTaint.toTaint) desired applied) :=
    map_toTaint_stampedTarget _
  refine ⟨fun want hwant => ?_, fun old hold hdropped t ht => ?_, filter_isOther_stampedTarget, ?_⟩
  · rw [hmap]
    exact filter_identity (distinct_target hcurrent hdesired) (hsettled want hwant)
  · refine identity_ne_of_dropped hok hold hdropped ?_
    rw [← hmap]
    exact List.mem_map_of_mem ht
  · rw [hmap]
    exact diff_of_settled hsettled

/-- A taint of the resource takes the place of an earlier one; the taint of somebody else stays. -/
theorem team_taint_replaces_earlier :
    (stampedTarget [⟨⟨"disk", none, "NoExecute"⟩, some 7⟩, ⟨⟨"old", some "x", "NoSchedule"⟩, some 8⟩]
        (diffNodeTaints [⟨"disk", none, "NoExecute"⟩, ⟨"old", some "x", "NoSchedule"⟩] [teamTaint]
          [⟨"old", some "x", .noSchedule⟩])).filter
      (isOther [teamTaint] [⟨"old", some "x", .noSchedule⟩]) =
        [⟨⟨"disk", none, "NoExecute"⟩, some 7⟩] :=
  (taints_converge_with_frame
    [⟨⟨"disk", none, "NoExecute"⟩, some 7⟩, ⟨⟨"old", some "x", "NoSchedule"⟩, some 8⟩] [teamTaint]
    [⟨"old", some "x", .noSchedule⟩] (by decide +kernel) (by decide +kernel)
    (by decide +kernel)).2.2.1.trans (by decide +kernel)

section Server

/-- What an API server that stores no empty value gives back. -/
def Taint.stored (t : Taint) : Taint := { t with value := t.value.filter fun v => !v.isEmpty }

def World.storeTaints (w : World) : World :=
  { w with nodes := fun client name =>
      (w.nodes client name).map fun node => { node with taints := node.taints.map Taint.stored } }

/-- Every call succeeds, and what is written is stored without empty values. -/
def taintServer (w : World) (r : Request) : Response r × World :=
  ((w.exec r .ok).1, (w.exec r .ok).2.storeTaints)

def taintRound (nodeRef : NodeRef) (w : World) : World :=
  ((reconcileNodeTaintsBestEffort w.machine (some nodeRef)).run.evalFrom taintServer w).2

/-- The resource is bound to a ready Node, and is neither deleted nor killed. -/
structure OnNode (nodeRef : NodeRef) (client : Client) (node : Node) (w : World) : Prop where
  named : nodeRef.name.isEmpty = false
  child : w.child = .ok client
  found : w.nodes client nodeRef.name = some node
  ready : node.ready = true
  alive : w.machine.deletionTimestamp = none
  unkilled : w.machine.spec.killSwitch = false

def AsStored (node : Node) : Prop := node.taints.map Taint.stored = node.taints

variable {nodeRef : NodeRef} {client : Client} {node : Node} {w : World}

theorem stored_stored (t : Taint) : t.stored.stored = t.stored := by
  simp [Taint.stored]

theorem OnNode.store (h : OnNode nodeRef client node w) (hstored : AsStored node) :
    OnNode nodeRef client node w.storeTaints where
  named := h.named
  child := h.child
  found := by
    rw [AsStored] at hstored
    simp [World.storeTaints, h.found, hstored]
  ready := h.ready
  alive := h.alive
  unkilled := h.unkilled

theorem OnNode.evalFrom_getNode (h : OnNode nodeRef client node w) :
    (call (.getNode client nodeRef.name)).run.evalFrom taintServer w =
      (.ok (.ok node), w.storeTaints) := by
  have hread : (w.exec (.getNode client nodeRef.name) .ok).1 = .ok node := by
    simp only [World.exec, h.found]
    rfl
  change (Except.ok (w.exec (.getNode client nodeRef.name) .ok).1, w.storeTaints) = _
  rw [hread]

def World.withNode (w : World) (client : Client) (name : String) (node : Node) : World :=
  { w with
    nodes := Function.update w.nodes client (Function.update (w.nodes client) name (some node)) }

theorem OnNode.evalFrom_patchNode (h : OnNode nodeRef client node w) (p : NodePatch) :
    ∃ w' node', (call (.patchNode client nodeRef.name p)).run.evalFrom taintServer w =
        (.ok (.ok ()), w') ∧
      OnNode nodeRef client node' w' ∧ w'.machine = w.machine ∧
      node'.taints = (p.taints.getD node.taints).map Taint.stored := by
  have hpatch : w.patchNode client nodeRef.name p =
      .ok (w.withNode client nodeRef.name (p.apply node)) := by
    rw [World.patchNode, h.found]
    rfl
  refine ⟨(w.withNode client nodeRef.name (p.apply node)).storeTaints,
    { p.apply node with taints := (p.apply node).taints.map Taint.stored }, ?_, ?_, rfl, rfl⟩
  · change (Except.ok (writeAnswer w .ok (w.patchNode client nodeRef.name p)).1,
      (writeAnswer w .ok (w.patchNode client nodeRef.name p)).2.storeTaints) = _
    rw [hpatch]
    rfl
  · exact {
      named := h.named
      child := h.child
      found := by simp [World.storeTaints, World.withNode]
      ready := h.ready
      alive := h.alive
      unkilled := h.unkilled }

theorem asStored_of_map {node : Node} {taints : List Taint}
    (h : node.taints = taints.map Taint.stored) : AsStored node := by
  rw [AsStored, h, List.map_map]
  exact List.map_congr_left fun t _ => stored_stored t

theorem OnNode.evalFrom_applyNodeTaints (h : OnNode nodeRef client node w) (hstored : AsStored node)
    (plan : NodeTaintPlan) :
    ∃ w' node', (applyNodeTaints client nodeRef.name plan).run.evalFrom taintServer w = (.ok (), w') ∧
      OnNode nodeRef client node' w' ∧ w'.machine = w.machine ∧
      node'.taints = (targetTaints node.taints plan).map Taint.stored := by
  unfold applyNodeTaints
  split
  · rename_i hnoop
    refine ⟨w, node, rfl, h, rfl, ?_⟩
    rw [target_of_isNoop hnoop]
    exact hstored.symm
  · obtain ⟨w', node', heval, hon, hmachine, htaints⟩ := (h.store hstored).evalFrom_patchNode
      { annotations := [( appliedTaintsAnnotation, some (ownedTaintsValue plan))]
        taints := some (targetTaints node.taints plan) }
    refine ⟨w', node', ?_, hon, hmachine, htaints⟩
    rw [evalFrom_run_bind _ h.evalFrom_getNode]
    change ((call (.patchNode client nodeRef.name _) >>= orKubeError).run).evalFrom taintServer _ = _
    rw [evalFrom_run_bind _ heval]
    rfl

theorem OnNode.evalFrom_reconcileNodeTaints (h : OnNode nodeRef client node w) (hstored : AsStored node)
    {desired applied : List NodeTaint} (hok : (diffNodeTaints node.taints desired applied).conflicts = []) :
    ∃ w' node', (reconcileNodeTaints client nodeRef.name desired applied).run.evalFrom taintServer w =
        (.ok (.applied desired), w') ∧
      OnNode nodeRef client node' w' ∧ w'.machine = w.machine ∧
      node'.taints = (targetTaints node.taints (diffNodeTaints node.taints desired applied)).map
        Taint.stored := by
  obtain ⟨w', node', heval, hon, hmachine, htaints⟩ := (h.store hstored).evalFrom_applyNodeTaints
    hstored (diffNodeTaints node.taints desired applied)
  refine ⟨w', node', ?_, hon, hmachine, htaints⟩
  unfold reconcileNodeTaints
  rw [evalFrom_run_bind _ h.evalFrom_getNode]
  dsimp only
  rw [if_neg (by simp [h.ready])]
  rw [if_neg (by simp [hok]), evalFrom_run_bind _ heval]
  rfl

theorem OnNode.evalFrom_recordNodeTaints (h : OnNode nodeRef client node w) (hstored : AsStored node)
    {desired : List NodeTaint}
    (hok : (diffNodeTaints node.taints desired (recordedTaints w.machine)).conflicts = []) :
    ∃ w' node', (recordNodeTaints desired (recordedTaints w.machine) client
        nodeRef.name).run.evalFrom taintServer w = (.ok (), w') ∧
      OnNode nodeRef client node' w' ∧ w'.machine.spec = w.machine.spec ∧
      recordedTaints w'.machine = desired ∧
      node'.taints = (targetTaints node.taints
        (diffNodeTaints node.taints desired (recordedTaints w.machine))).map Taint.stored := by
  obtain ⟨w', node', heval, hon, hmachine, htaints⟩ := h.evalFrom_reconcileNodeTaints hstored hok
  unfold recordNodeTaints
  rw [evalFrom_run_bind _ heval]
  dsimp only
  split
  · rename_i hsame
    exact ⟨w', node', rfl, hon, by rw [hmachine], by rw [hmachine, hsame], htaints⟩
  · have hspec : w'.machine.spec = w.machine.spec := by rw [hmachine]
    refine ⟨(w'.patchStatus { appliedNodeTaints := some desired }).storeTaints, node', rfl, ?_, hspec, ?_,
      htaints⟩
    · have hkept := hon.store (asStored_of_map htaints)
      exact ⟨hkept.named, hkept.child, hkept.found, hkept.ready, hkept.alive, hkept.unkilled⟩
    · cases hstatus : w'.machine.status <;>
        simp [recordedTaints, World.storeTaints, World.patchStatus, StatusPatch.apply, hstatus]

theorem OnNode.round (h : OnNode nodeRef client node w) (hstored : AsStored node)
    (hok : (taintPlan w.machine node).conflicts = []) :
    ∃ node', OnNode nodeRef client node' (taintRound nodeRef w) ∧
      (taintRound nodeRef w).machine.spec = w.machine.spec ∧
      recordedTaints (taintRound nodeRef w).machine = w.machine.spec.nodeTaints ∧
      node'.taints = (targetTaints node.taints (taintPlan w.machine node)).map Taint.stored := by
  unfold taintRound reconcileNodeTaintsBestEffort
  dsimp only
  rw [if_neg (by simp [h.alive, h.unkilled])]
  split
  · rename_i hnone
    rw [Bool.and_eq_true, List.isEmpty_iff, List.isEmpty_iff] at hnone
    have hnoop : (taintPlan w.machine node).isNoop = true := by
      simp [taintPlan, recordedTaints, hnone.1, hnone.2, diffNodeTaints, NodeTaintPlan.isNoop]
    refine ⟨node, h, rfl, hnone.2.trans hnone.1.symm, ?_⟩
    rw [target_of_isNoop hnoop]
    exact hstored.symm
  · have hchild : (call .resolveChild).run.evalFrom taintServer w =
        (.ok (.ok client), w.storeTaints) := by
      rw [← h.child]
      rfl
    obtain ⟨w', node', heval, hon, hspec, hrecorded, htaints⟩ :=
      (h.store hstored).evalFrom_recordNodeTaints hstored hok
    have hattempt : (onNode (some nodeRef) (recordNodeTaints w.machine.spec.nodeTaints
        (recordedTaints w.machine))).run.evalFrom taintServer w = (.ok (), w') := by
      unfold onNode
      dsimp only
      rw [if_neg (by simp [h.named]), evalFrom_run_bind _ hchild]
      dsimp only
      rw [evalFrom_run_bind _ (evalFrom_run_attempt _)]
      exact congrArg (fun x => (Except.ok (), x.2)) heval
    refine ⟨node', ?_, ?_, ?_, htaints⟩
    · exact (congrArg Prod.snd hattempt) ▸ hon
    · exact (congrArg Prod.snd hattempt) ▸ hspec
    · exact (congrArg Prod.snd hattempt) ▸ hrecorded

def Quiet (nodeRef : NodeRef) (client : Client) (w : World) : Prop :=
  ∃ node, w.nodes client nodeRef.name = some node ∧
    (taintPlan w.machine node).isNoop = true ∧ (taintPlan w.machine node).conflicts = []

/-- Everything desired is on the Node and recorded, as the server stores it. -/
structure Rest (nodeRef : NodeRef) (client : Client) (node : Node) (w : World) : Prop where
  onNode : OnNode nodeRef client node w
  stored : AsStored node
  recorded : recordedTaints w.machine = w.machine.spec.nodeTaints
  settled : Settled node.taints w.machine.spec.nodeTaints

theorem Rest.plan (h : Rest nodeRef client node w) :
    (taintPlan w.machine node).isNoop = true ∧ (taintPlan w.machine node).conflicts = [] := by
  rw [taintPlan, h.recorded]
  exact diff_of_settled h.settled

theorem Rest.round (h : Rest nodeRef client node w) :
    ∃ node', Rest nodeRef client node' (taintRound nodeRef w) := by
  obtain ⟨node', hon, hspec, hrecorded, htaints⟩ := h.onNode.round h.stored h.plan.2
  have hsame : node'.taints = node.taints := by
    rw [htaints, target_of_isNoop h.plan.1]
    exact h.stored
  refine ⟨node', hon, asStored_of_map htaints, by rw [hrecorded, hspec], ?_⟩
  rw [hsame, hspec]
  exact h.settled

theorem Rest.quiet_iterate (h : Rest nodeRef client node w) (n : Nat) :
    Quiet nodeRef client (Nat.iterate (taintRound nodeRef) n w) := by
  induction n generalizing w node with
  | zero => exact ⟨node, h.onNode.found, h.plan⟩
  | succ n ih =>
    obtain ⟨node', hrest⟩ := h.round
    exact ih hrest

theorem taintAt_map_stored (taints : List Taint) (i : String × String) :
    taintAt (taints.map Taint.stored) i = (taintAt taints i).map Taint.stored := by
  unfold taintAt
  rw [List.find?_map]
  rfl

theorem stored_toTaint_eq_iff {t : NodeTaint} : t.toTaint.stored = t.toTaint ↔ t.value ≠ some "" := by
  obtain ⟨key, value, effect⟩ := t
  cases value with
  | none => simp [NodeTaint.toTaint, Taint.stored]
  | some v => simp [NodeTaint.toTaint, Taint.stored, Option.filter_eq_some_iff]

end Server

/-- Taints that were written once are found settled from then on exactly when none of them has the
empty value: it is stored as no value, and then taken for somebody else's taint. -/
theorem taints_survive_round_trip_iff (w : World) (nodeRef : NodeRef) (client : Client) (node : Node)
    (hon : OnNode nodeRef client node w) (hstored : AsStored node) (hdistinct : Distinct node.taints)
    (hvalid : validateNodeTaints w.machine.spec.nodeTaints = .ok ())
    (hok : (taintPlan w.machine node).conflicts = []) :
    (∀ n, Quiet nodeRef client (Nat.iterate (taintRound nodeRef) (n + 1) w)) ↔
      ∀ want ∈ w.machine.spec.nodeTaints, want.value ≠ some "" := by
  obtain ⟨-, hdesired⟩ := validateNodeTaints_eq_ok_iff.mp hvalid
  obtain ⟨node', hon', hspec, hrecorded, htaints⟩ := hon.round hstored hok
  have hat : ∀ want ∈ w.machine.spec.nodeTaints,
      taintAt node'.taints want.identity = some want.toTaint.stored := by
    intro want hwant
    rw [htaints, taintAt_map_stored]
    exact congrArg (Option.map Taint.stored) (settled_target hdistinct hdesired hok want hwant)
  constructor
  · intro hquiet want hwant hempty
    obtain ⟨found, hfound, -, hnone⟩ := hquiet 0
    obtain rfl : node' = found := Option.some.inj (hon'.found.symm.trans hfound)
    -- the stored taint has no value, neither the desired nor the recorded one
    have hforeign : isForeign node'.taints w.machine.spec.nodeTaints want = true := by
      obtain ⟨old, hold⟩ : ∃ old, findApplied w.machine.spec.nodeTaints want = some old :=
        Option.isSome_iff_exists.mp (List.find?_isSome.mpr ⟨want, hwant, by simp⟩)
      have hsame : old = want := by
        refine eq_of_identity hdesired (List.mem_of_find?_eq_some hold) hwant ?_
        exact sameIdentity_iff.mp (by simpa using List.find?_some hold)
      simp [isForeign, findCurrent_eq, hat want hwant, hold, hsame, Taint.stored, NodeTaint.toTaint,
        hempty]
    change (taintPlan (taintRound nodeRef w).machine node').conflicts = [] at hnone
    rw [taintPlan, hspec, hrecorded, diff_conflicts, List.append_eq_nil_iff,
      List.filter_eq_nil_iff] at hnone
    exact hnone.1 want hwant hforeign
  · intro hvalues n
    have hrest : Rest nodeRef client node' (taintRound nodeRef w) := by
      refine ⟨hon', asStored_of_map htaints, by rw [hrecorded, hspec], ?_⟩
      rw [hspec]
      intro want hwant
      rw [hat want hwant, stored_toTaint_eq_iff.mpr (hvalues want hwant)]
    exact hrest.quiet_iterate n

section Sample

def sampleNodeRef : NodeRef := ⟨"v1", "Node", "node-1", none⟩

def sampleDesiring (t : NodeTaint) : World := taintSample [t] (joinSample sampleWorld)

theorem team_taint_survives_round_trip : Quiet sampleNodeRef .management
    (Nat.iterate (taintRound sampleNodeRef) 3 (sampleDesiring teamTaint)) :=
  (taints_survive_round_trip_iff (sampleDesiring teamTaint) sampleNodeRef .management
    ⟨[], [], false, [], true⟩ ⟨by decide, rfl, rfl, rfl, rfl, rfl⟩ rfl (by decide) rfl rfl).mpr
    (by decide) 2

def plannedConflicts (w : World) : Option (List NodeTaint) :=
  (w.nodes .management "node-1").map fun node => (taintPlan w.machine node).conflicts

/-- A taint with the empty value is valid and is written without a conflict; the next reconcile finds it
stored without a value and reports it. -/
theorem empty_value_conflicts_after_round_trip :
    validateNodeTaints (sampleDesiring ⟨"team", some "", .noSchedule⟩).machine.spec.nodeTaints = .ok () ∧
      plannedConflicts (sampleDesiring ⟨"team", some "", .noSchedule⟩) = some [] ∧
      plannedConflicts (taintRound sampleNodeRef (sampleDesiring ⟨"team", some "", .noSchedule⟩)) =
        some [⟨"team", some "", .noSchedule⟩] :=
  ⟨rfl, by decide +kernel⟩

end Sample

end FiveSpot.Machine
