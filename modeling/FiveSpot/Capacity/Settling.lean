import FiveSpot.Capacity.Steady

/-!
# The status settles

A status computed a second time, from what the first one recorded, is the same status: the decision is
the same, no value is recorded anew, and each condition keeps its time stamp. Only the passing of the
handback deadline can change it after that, and only once.
-/

namespace FiveSpot.Capacity

set_option autoImplicit false

open Effects

section Merging

variable {previous l l' m : List Condition}

/-- The condition with the time stamp it had, if its status has not changed. -/
def keptTime (previous : List Condition) (condition : Condition) : Condition :=
  match previous.find? fun stored => stored.type == condition.type with
  | some stored =>
      if stored.status == condition.status then
        { condition with lastTransitionTime := stored.lastTransitionTime }
      else condition
  | none => condition

theorem mergeConditionTimestamps_eq_map (computed : List Condition) :
    mergeConditionTimestamps computed previous = computed.map (keptTime previous) := rfl

/-- Only the time stamp may differ. -/
def Retimed (a b : Condition) : Prop := ∃ time, a = { b with lastTransitionTime := time }

theorem retimed_keptTime (a : Condition) : Retimed (keptTime previous a) a := by
  unfold keptTime
  repeat' split
  all_goals exact ⟨_, rfl⟩

theorem type_keptTime (a : Condition) : (keptTime previous a).type = a.type := by
  have hretimed : Retimed (keptTime previous a) a := retimed_keptTime a
  obtain ⟨time, heq⟩ := hretimed
  rw [heq]

theorem find?_keptTime (hl : (l.map Condition.type).Nodup) {a : Condition} (ha : a ∈ l) :
    (l.map (keptTime previous)).find? (fun stored => stored.type == a.type) =
      some (keptTime previous a) := by
  induction l with
  | nil => cases ha
  | cons b l ih =>
    rw [List.map_cons, List.nodup_cons] at hl
    rcases List.mem_cons.mp ha with rfl | ha
    · simp [type_keptTime]
    · have hne : b.type ≠ a.type := fun heq => hl.1 (heq ▸ List.mem_map_of_mem ha)
      rw [List.map_cons, List.find?_cons_of_neg (by simpa [type_keptTime] using hne)]
      exact ih hl.2 ha

theorem keptTime_of_find? {a b stored : Condition} (hab : Retimed a b) (hstored : Retimed stored a)
    (hfind : m.find? (fun s => s.type == a.type) = some stored) : keptTime m b = stored := by
  obtain ⟨_, rfl⟩ := hab
  obtain ⟨_, rfl⟩ := hstored
  unfold keptTime
  rw [hfind]
  simp

theorem mergeConditionTimestamps_again (hl : (l.map Condition.type).Nodup)
    (hsame : List.Forall₂ Retimed l l') :
    mergeConditionTimestamps l' (mergeConditionTimestamps l previous) =
      mergeConditionTimestamps l previous := by
  simp only [mergeConditionTimestamps_eq_map]
  have hall : ∀ k k', List.Forall₂ Retimed k k' → (∀ a ∈ k, a ∈ l) →
      k'.map (keptTime (l.map (keptTime previous))) = k.map (keptTime previous) := by
    intro k k' hk
    induction hk with
    | nil => exact fun _ => rfl
    | @cons a b k k' hab _ ih =>
      intro hmem
      rw [List.map_cons, List.map_cons, ih fun a' ha' => hmem a' (List.mem_cons_of_mem _ ha')]
      rw [keptTime_of_find? hab (retimed_keptTime a) (find?_keptTime hl (hmem a List.mem_cons_self))]
  exact hall l l' hsame fun _ ha => ha

end Merging

section Deciding

variable {input : CapacityDecisionInput}

theorem decide_congr {deadline : Option Instant} {now : Instant}
    (hdeadline : input.draining = true →
      deadline.getD (now + input.handbackTimeout) =
        input.handbackDeadline.getD (input.now + input.handbackTimeout))
    (hlate : input.draining = true →
      (input.handbackDeadline.getD (input.now + input.handbackTimeout) ≤ now ↔
        input.handbackDeadline.getD (input.now + input.handbackTimeout) ≤ input.now)) :
    decide { input with handbackDeadline := deadline, now := now } = decide input := by
  unfold decide
  dsimp only
  split
  · rfl
  · rename_i hconflict
    split
    · rfl
    · rename_i htarget
      split
      · rfl
      · rename_i hkill
        change (if input.shouldBeActive = true then _ else _) = _
        split
        · rfl
        · rename_i hactive
          unfold decideHandback
          dsimp only
          split
          · rfl
          · rename_i hsignal
            split
            · rfl
            · rename_i hdrained
              have hdraining : input.draining = true := by
                simp_all [CapacityDecisionInput.draining]
              rw [hdeadline hdraining]
              simp only [hlate hdraining]

theorem decide_phase_handingBack :
    (decide input).phase = .handingBack ↔ input.draining = true ∧
      input.now < input.handbackDeadline.getD (input.now + input.handbackTimeout) := by
  unfold decide
  split
  · simp_all [CapacityDecisionInput.draining]
  · split
    · simp_all [CapacityDecisionInput.draining, CapacityDecision.hold]
    · split
      · simp_all [CapacityDecisionInput.draining]
      · split
        · simp_all [CapacityDecisionInput.draining]
        · unfold decideHandback
          dsimp only
          repeat' split
          all_goals simp_all [CapacityDecisionInput.draining]

end Deciding

section Status

/-! The stored status has no part in what is observed. -/

variable {E : Outlook} {c : ScheduledCapacity} {ns : String} {o : Observation} {present : Bool}
  (status : Option ScheduledCapacityStatus)

theorem shows_status {object : Object} :
    E.Shows { c with status := status } object ↔ E.Shows c object :=
  ⟨fun h => ⟨h.owned, h.drained⟩, fun h => ⟨h.owned, h.drained⟩⟩

theorem finds_status {α : Type} {x : Reconcile α} {a : α} :
    E.Finds { c with status := status } present x a ↔ E.Finds c present x a := by
  unfold Outlook.Finds
  simp only [shows_status]

theorem observes_status :
    E.Observes ns { c with status := status } present o ↔ E.Observes ns c present o :=
  ⟨fun h => ⟨h.verdict, (finds_status status).mp h.target, h.drained, h.conflict, h.timeout⟩,
    fun h => ⟨h.verdict, (finds_status status).mpr h.target, h.drained, h.conflict, h.timeout⟩⟩

end Status

def reported (c : ScheduledCapacity) (ns : String) (o : Observation) (time : Fin 6 → Instant) :
    ScheduledCapacity :=
  { c with status := some (computedStatus c ns o time) }

section Reported

variable {E : Outlook} {c : ScheduledCapacity} {ns : String} {o o' : Observation}
  {time time' : Fin 6 → Instant} {present : Bool}

@[simp] theorem reported_writtenValue : (reported c ns o time).writtenValue = recordedValue c o :=
  computedStatus_writtenValue

@[simp] theorem reported_lastKnownActive :
    (reported c ns o time).lastKnownActive = o.verdict.isActive? :=
  buildStatusValue_active ..

theorem reported_deadline :
    (reported c ns o time).handbackDeadline.bind parseRfc3339 = (decision c o).handbackDeadline := by
  have hstored : (reported c ns o time).handbackDeadline =
      (decision c o).handbackDeadline.map Timestamp.at := buildStatusValue_handbackDeadline ..
  rw [hstored]
  cases (decision c o).handbackDeadline <;> rfl

theorem reported_lastWriteTime (now : Instant) :
    lastWriteTime (reported c ns o time) (recordedValue c o) now =
      lastWriteTime c (recordedValue c o) o.now := by
  have hstored : (computedStatus c ns o time).lastWriteTime =
      lastWriteTime c (recordedValue c o) o.now := by
    simp [computedStatus, computedPatch, statusPatch, buildStatusValue, StatusPatch.apply]
  rw [← hstored, lastWriteTime, if_neg (by simp)]
  rfl

theorem reported_transitionTime (now : Instant) :
    spotScheduleTransitionTime (reported c ns o time) o.verdict now =
      spotScheduleTransitionTime c o.verdict o.now := by
  have hstored : (computedStatus c ns o time).spotSchedule.bind (fun s => s.lastTransitionTime) =
      spotScheduleTransitionTime c o.verdict o.now := by
    simp [computedStatus, computedPatch, statusPatch, buildStatusValue, StatusPatch.apply,
      SpotSchedulePatch.apply]
  rw [← hstored, spotScheduleTransitionTime, if_pos reported_lastKnownActive]
  rfl

theorem nodup_freshConditions : ((freshConditions c o time).map Condition.type).Nodup := by
  change [conditionTypeReady, conditionTypeSpotScheduleResolved, conditionTypeTargetResolved,
    conditionTypeCapacityWritten, conditionTypeHandbackComplete,
    conditionTypeHostGovernanceConflict].Nodup
  decide

structure Alike (c : ScheduledCapacity) (o o' : Observation) : Prop where
  observation : o' = { o with now := o'.now, target := o'.target }
  target : SameSight c o.target o'.target

theorem Alike.refl (o : Observation) : Alike c o o := ⟨rfl, .refl _⟩

theorem Outlook.Observes.alike (ho : E.Observes ns c present o) (ho' : E.Observes ns c present o') :
    Alike c o o' := by
  have hsight := sameSight_found ho.target ho'.target
  have hverdict : o'.verdict = o.verdict := Except.ok.inj (ho'.verdict.symm.trans ho.verdict)
  have htimeout : o'.handbackTimeout = o.handbackTimeout :=
    Except.ok.inj (ho'.timeout.symm.trans ho.timeout)
  have hdrained : o'.observedDrained = o.observedDrained := by
    rw [ho'.drained, ho.drained, hsight.drained]
  refine ⟨?_, hsight⟩
  rw [← hverdict, ← htimeout, ← hdrained, ho.conflict.trans ho'.conflict.symm]

theorem Alike.decisionInput (ha : Alike c o o') :
    decisionInput c o' = { decisionInput c o with now := o'.now } := by
  rw [ha.observation]
  simp only [Capacity.decisionInput, ha.target.writable]

theorem retimed_freshConditions (ha : Alike c o o')
    (hdecision : decision (reported c ns o time) o' = decision c o)
    (hrecorded : recordedValue (reported c ns o time) o' = recordedValue c o) :
    List.Forall₂ Retimed (freshConditions c o time)
      (freshConditions (reported c ns o time) o' time') := by
  unfold freshConditions
  rw [hdecision, hrecorded, ha.observation]
  simp only [ha.target.writable, ha.target.reason, ha.target.message]
  refine .cons ⟨_, rfl⟩ (.cons ⟨_, rfl⟩ (.cons ⟨_, rfl⟩ (.cons ⟨_, rfl⟩ (.cons ⟨_, rfl⟩
    (.cons ⟨_, rfl⟩ .nil)))))

theorem computedStatus_reported (ha : Alike c o o')
    (hdecision : decision (reported c ns o time) o' = decision c o) :
    computedStatus (reported c ns o time) ns o' time' = computedStatus c ns o time := by
  have hrecorded : recordedValue (reported c ns o time) o' = recordedValue c o := by
    rw [recordedValue, hdecision, reported_writtenValue, recordedValue]
    cases (decision c o).write <;> rfl
  have hmerged : mergeConditionTimestamps (freshConditions (reported c ns o time) o' time')
      (storedConditions (reported c ns o time)) =
      mergeConditionTimestamps (freshConditions c o time) (storedConditions c) :=
    mergeConditionTimestamps_again nodup_freshConditions (retimed_freshConditions ha hdecision hrecorded)
  have hverdict : o'.verdict = o.verdict := by rw [ha.observation]
  have hdrained : o'.observedDrained = o.observedDrained := by rw [ha.observation]
  have htarget : targetRefValue (reported c ns o time) ns o'.target = targetRefValue c ns o.target := by
    have hobject := ha.target.object
    unfold targetRefValue
    cases h : o.target.object <;> cases h' : o'.target.object <;> simp_all [reported]
  have hpatch : computedPatch (reported c ns o time) ns o' time' = computedPatch c ns o time := by
    unfold computedPatch statusPatch buildStatusValue
    simp only
    rw [hmerged, hrecorded, hdecision, hverdict, hdrained, htarget, reported_lastWriteTime,
      reported_transitionTime]
    rfl
  rw [computedStatus, hpatch, computedStatus]

theorem decision_reported (hactive : c.lastKnownActive = o.verdict.isActive?)
    (hwrite : (decision c o).write = none) : decision (reported c ns o time) o = decision c o := by
  have hrecorded : recordedValue c o = c.writtenValue := by
    rw [recordedValue, hwrite]
    rfl
  have hinput : decisionInput (reported c ns o time) o =
      { decisionInput c o with handbackDeadline := (decision c o).handbackDeadline } := by
    unfold decisionInput
    rw [reported_lastKnownActive, reported_writtenValue, reported_deadline, hrecorded, hactive]
    rfl
  unfold decision
  rw [hinput]
  refine decide_congr (fun hdraining => ?_) fun _ => Iff.rfl
  rw [decision, decide_deadline, if_pos hdraining]
  rfl

theorem decision_later (ha : Alike c o o') (hnow : o.now ≤ o'.now)
    (hstored : c.status = some (computedStatus c ns o time))
    (hphase : (decision c o).phase ≠ .handingBack ∨ (decision c o').phase = .handingBack) :
    decision c o' = decision c o := by
  have hdeadline : (decisionInput c o).handbackDeadline = (decision c o).handbackDeadline := by
    have hc : reported c ns o time = c := by
      unfold reported
      rw [← hstored]
    have hkept : (reported c ns o time).handbackDeadline.bind parseRfc3339 =
        (decision c o).handbackDeadline := reported_deadline
    rw [hc] at hkept
    exact hkept
  have hrunning : (decisionInput c o).draining = true →
      ∃ d, (decisionInput c o).handbackDeadline = some d := by
    intro hdraining
    rw [hdeadline, decision, decide_deadline, if_pos hdraining]
    exact ⟨_, rfl⟩
  unfold decision at hphase ⊢
  rw [ha.decisionInput] at hphase ⊢
  rw [Ne, decide_phase_handingBack, decide_phase_handingBack] at hphase
  refine decide_congr (fun hdraining => ?_) fun hdraining => ?_
  · obtain ⟨d, hd⟩ := hrunning hdraining
    rw [hd]
    rfl
  · obtain ⟨d, hd⟩ := hrunning hdraining
    simp only [hd, Option.getD_some] at hphase ⊢
    refine ⟨fun hlate => ?_, fun hlate => Int.le_trans hlate hnow⟩
    rcases hphase with hphase | hphase
    · exact Int.not_lt.mp fun hearly => hphase ⟨hdraining, hearly⟩
    · exact absurd hphase.2 (Int.not_lt.mpr hlate)

theorem recordedValue_eq (h : o.conflict = true ∨ o.target.writable = true) :
    recordedValue c o = some (decisionInput c o).wanted := by
  have hguard : ((decisionInput c o).conflict || (decisionInput c o).targetResolved) = true :=
    (Bool.or_eq_true _ _).mpr h
  rw [recordedValue, decision, decide_write, if_pos hguard]
  unfold writeIfChanged
  split
  · assumption
  · rfl

theorem write_reported (hactive : c.lastKnownActive = o.verdict.isActive?)
    (hverdict : o'.verdict = o.verdict) (hconflict : o'.conflict = o.conflict)
    (hwritable : o'.target.writable = true → o.conflict = true ∨ o.target.writable = true) :
    (decision (reported c ns o time) o').write = none := by
  rw [decision, decide_write]
  split
  · rename_i hguard
    have hguard : o'.conflict = true ∨ o'.target.writable = true := (Bool.or_eq_true _ _).mp hguard
    have hbefore : o.conflict = true ∨ o.target.writable = true :=
      hguard.elim (fun h => .inl (hconflict ▸ h)) hwritable
    have hwanted : (decisionInput (reported c ns o time) o').wanted = (decisionInput c o).wanted := by
      have hclosed : o.conflict = true ∨ o'.target.writable = o.target.writable := by
        rcases hbefore with h | h
        · exact .inl h
        · rcases hguard with h' | h'
          · exact .inl (hconflict ▸ h')
          · exact .inr (h'.trans h.symm)
      unfold CapacityDecisionInput.wanted CapacityDecisionInput.concedes
        CapacityDecisionInput.shouldBeActive decisionInput
      simp only [reported_lastKnownActive, hconflict, hverdict, hactive]
      rcases hclosed with h | h <;> simp [h, reported]
    have hlast : (decisionInput (reported c ns o time) o').lastWritten = recordedValue c o :=
      reported_writtenValue
    rw [hlast, hwanted, recordedValue_eq hbefore, writeIfChanged, if_pos rfl]
  · rfl

end Reported

/--
How far the status still is from settling. The verdict is on record at 3, the value at 2; at 1 the status
is the one a reconcile would compute, and at 0 no handback deadline is to come either.
-/
structure Level (E : Outlook) (ns : String) (w : World) (n : Nat) : Prop where
  active : n ≤ 3 → ∀ verdict, E.verdict ns w.capacity = .ok verdict →
    w.capacity.lastKnownActive = verdict.isActive?
  written : n ≤ 2 → ∀ o, E.Observes ns w.capacity w.object.isSome o →
    (decision w.capacity o).write = none
  settled : n ≤ 1 → ∃ o time, E.Observes ns w.capacity w.object.isSome o ∧ o.now ≤ w.clock ∧
    w.capacity.status = some (computedStatus w.capacity ns o time) ∧
    (n = 0 → (decision w.capacity o).phase ≠ .handingBack)

namespace Level

variable {E : Outlook} {ns : String} {w w' : World} {n : Nat} {o : Observation}
  {time : Fin 6 → Instant}

theorem four (E : Outlook) (ns : String) (w : World) : Level E ns w 4 where
  active h := absurd h (by decide)
  written h := absurd h (by decide)
  settled h := absurd h (by decide)

theorem mono (hl : Level E ns w n) (hc : w'.capacity = w.capacity)
    (hp : w'.object.isSome = w.object.isSome) (hclock : w.clock ≤ w'.clock) : Level E ns w' n where
  active := by
    rw [hc]
    exact hl.active
  written := by
    rw [hc, hp]
    exact hl.written
  settled hn := by
    rw [hc, hp]
    obtain ⟨o, time, ho, hnow, hrest⟩ := hl.settled hn
    exact ⟨o, time, ho, Int.le_trans hnow hclock, hrest⟩

theorem mono_of_three_le (hl : Level E ns w n) (hn : 3 ≤ n) (hc : w'.capacity = w.capacity) :
    Level E ns w' n where
  active := by
    rw [hc]
    exact hl.active
  written h := by omega
  settled h := by omega

theorem three_le (hl : Level E ns w n) (ho : E.Observes ns w.capacity w.object.isSome o)
    (hwrite : (decision w.capacity o).write.isSome = true) : 3 ≤ n := by
  by_contra hn
  rw [hl.written (by omega) o ho] at hwrite
  cases hwrite

theorem verdict_active (hl : Level E ns w n) (hn : n ≤ 3)
    (ho : E.Observes ns w.capacity w.object.isSome o) :
    w.capacity.lastKnownActive = o.verdict.isActive? :=
  hl.active hn o.verdict ho.verdict

theorem timedOut (hl : Level E ns w n) (hn : n ≤ 1) (ho : E.Observes ns w.capacity w.object.isSome o)
    (hnow : w.clock ≤ o.now)
    (hdiffers : w.capacity.status ≠ some (computedStatus w.capacity ns o time)) :
    0 < n ∧ (decision w.capacity o).phase ≠ .handingBack := by
  obtain ⟨o₀, time₀, ho₀, hnow₀, hstored, hphase₀⟩ := hl.settled hn
  have ha : Alike w.capacity o₀ o := ho₀.alike ho
  have hc : reported w.capacity ns o₀ time₀ = w.capacity := by
    unfold reported
    rw [← hstored]
  by_contra hcontra
  have hsame : decision w.capacity o = decision w.capacity o₀ := by
    refine decision_later ha (Int.le_trans hnow₀ hnow) hstored ?_
    by_cases hphase : (decision w.capacity o).phase = .handingBack
    · exact .inr hphase
    · have hzero : n = 0 := by
        by_contra hne
        exact hcontra ⟨Nat.pos_of_ne_zero hne, hphase⟩
      exact .inl (hphase₀ hzero)
  have hstatus : computedStatus (reported w.capacity ns o₀ time₀) ns o time =
      computedStatus w.capacity ns o₀ time₀ := by
    refine computedStatus_reported ha ?_
    rw [hc]
    exact hsame
  rw [hc] at hstatus
  exact hdiffers (by rw [hstatus, hstored])

theorem reported (hl : Level E ns w n) (ho : E.Observes ns w.capacity w.object.isSome o)
    (hnow : w.clock ≤ o.now)
    (hdiffers : w.capacity.status ≠ some (computedStatus w.capacity ns o time))
    (hc : w'.capacity = Capacity.reported w.capacity ns o time) (hclock : o.now ≤ w'.clock)
    (hp : w'.object.isSome = w.object.isSome ∨ 3 ≤ n ∧ o.target.writable = true) :
    0 < n ∧ Level E ns w' (n - 1) := by
  have hpos : 0 < n := by
    by_contra hzero
    exact absurd (hl.timedOut (by omega) ho hnow hdiffers).1 hzero
  refine ⟨hpos, ?_, ?_, ?_⟩
  · intro _ verdict hverdict
    rw [hc] at hverdict ⊢
    obtain rfl : o.verdict = verdict := Except.ok.inj (ho.verdict.symm.trans hverdict)
    exact reported_lastKnownActive
  · intro hn o' ho'
    rw [hc] at ho' ⊢
    replace ho' := (observes_status _).mp ho'
    have hverdict : o'.verdict = o.verdict := Except.ok.inj (ho'.verdict.symm.trans ho.verdict)
    refine write_reported (hl.verdict_active (by omega) ho) hverdict
      (ho'.conflict.trans ho.conflict.symm) fun hwritable => .inr ?_
    rcases hp with hp | hp
    · rw [hp] at ho'
      exact (sameSight_found ho.target ho'.target).writable.symm.trans hwritable
    · exact hp.2
  · intro hn
    have hp : w'.object.isSome = w.object.isSome := hp.resolve_right fun h => by omega
    have hactive := hl.verdict_active (by omega) ho
    have hwrite := hl.written (by omega) o ho
    rw [hc, hp]
    have hsame : decision (Capacity.reported w.capacity ns o time) o = decision w.capacity o :=
      decision_reported hactive hwrite
    refine ⟨o, time, (observes_status _).mpr ho, hclock, ?_, ?_⟩
    · rw [computedStatus_reported (.refl o) hsame]
      rfl
    · intro hzero
      rw [hsame]
      exact (hl.timedOut (by omega) ho hnow hdiffers).2

end Level

end FiveSpot.Capacity
