import FiveSpot.Machine.Steps

/-!
# The reconciler keeps to its description

The handlers of the reconciler put together from its steps: every reconcile does only what
`Permitted` allows.
-/

namespace FiveSpot.Machine

set_option autoImplicit false

open Effects Effects.Prog

variable {α β : Type} {r : ScheduledMachine} {h h' : Log}

section Endings

theorem conforms_removeFinalizer (hd : r.deletionTimestamp.isSome = true)
    (hc : ⟨.timerFired, true⟩ ∈ h ∨ Steady h ∧ (isRunning r.phase = true → Removed r h)) :
    Conforms r (removeFinalizer r) h := by
  have hf : finalizerScheduledMachine ∉
      (r.finalizers.getD []).filter fun f => f != finalizerScheduledMachine := by simp
  exact (keeps_ask (.dropFinalizer hf hd hc)).then fun x h' _ =>
    conforms_quiet ((calls_orKubeError x).bind fun _ => calls_pure _)

theorem meets_pollTimer {p : Prog Request Response α} {Q : α → Log → Prop}
    (hp : p.Meets (fun _ _ => True) (Permitted r) Q h) (hh : Ticked h h') :
    (pollTimer p).Meets (fun _ _ => True) (Permitted r)
      (fun o h'' => match o with
        | some a => ∃ h₁, Padded h₁ h'' ∧ Q a h₁
        | none => ⟨.timerFired, true⟩ ∈ h'') h' := by
  induction p generalizing h h' with
  | pure a => exact ⟨h, hh.padded, hp⟩
  | call q k ih =>
    refine ⟨hp.1.tick hh, fun x _ => ⟨.calm rfl, fun fired _ => ?_⟩⟩
    cases fired with
    | true => exact List.mem_cons_self
    | false => exact ih x (hp.2 x trivial) hh.tick

theorem keeps_cleanup (s : Settings) {ns : String} (hns : r.ns = some ns) (hs : Steady h)
    (hr : Removing r h) :
    Keeps (Permitted r) (runCleanupWithTimeout (removeMachineFromCluster s r ns)) h
      (fun outcome h' => match outcome with
        | .completed => Steady h' ∧ Removed r h'
        | .failed _ => True
        | .timedOut => ⟨.timerFired, true⟩ ∈ h') fun _ _ => False := by
  have hremove := (keeps_removeMachine s hns hs.noCreate hr).meets
  have hpoll := meets_pollTimer hremove (.refl h)
  refine ⟨meets_run_bind.mpr (meets_run_lift.mpr ?_)⟩
  refine hpoll.mono fun o h' ho => ?_
  match o, ho with
  | some (.ok ()), ⟨h₁, hp, hg, hr⟩ =>
    exact ⟨hp.steady (hs.after hg), hr.after hp.keeps⟩
  | some (.error e), _ => exact trivial
  | none, ht => exact ht

theorem conforms_handleDeletion (s : Settings) (hd : r.deletionTimestamp.isSome = true)
    (hs : Steady h) : Conforms r (handleDeletion s r) h := by
  refine keeps_namespaceOf.then fun ns h₀ hns => ?_
  obtain ⟨hns, rfl⟩ := hns
  split
  · rename_i hrun
    refine (keeps_cleanup s hns hs (.deleted hd hrun)).then fun outcome h₁ hout => ?_
    cases outcome with
    | completed => exact conforms_removeFinalizer hd (Or.inr ⟨hout.1, fun _ => hout.2⟩)
    | failed e => exact ⟨trivial⟩
    | timedOut =>
      refine (keeps_quiet (quietly_publish _)).then fun _ h₂ hq => ?_
      split
      · exact conforms_removeFinalizer hd (Or.inl (hq.mem hout))
      · exact ⟨trivial⟩
  · rename_i hrun
    exact conforms_removeFinalizer hd (Or.inr ⟨hs, fun h => absurd h hrun⟩)

theorem conforms_recordTerminated (hk : Killed r)
    (ht : r.phase ≠ some .terminated) (hs : Steady h)
    (hr : isRunning r.phase = true → Removed r h) : Conforms r (recordTerminated r) h :=
  (keeps_recordPhase (.terminated hk ht hs hr)).then fun _ _ _ => ⟨trivial⟩

theorem conforms_handleKillSwitch (s : Settings) (hk : Killed r) (hs : Steady h) :
    Conforms r (handleKillSwitch s r) h := by
  refine keeps_namespaceOf.then fun ns h₀ hns => ?_
  obtain ⟨hns, rfl⟩ := hns
  split
  · exact ⟨trivial⟩
  · rename_i ht
    have ht : r.phase ≠ some .terminated := by simpa using ht
    split
    · rename_i hrun
      refine (keeps_removeMachine s hns hs.noCreate (.killed hk hrun)).then fun _ h₁ hr => ?_
      exact conforms_recordTerminated hk ht (hs.after hr.1) fun _ => hr.2
    · rename_i hrun
      exact conforms_recordTerminated hk ht hs fun h => absurd h hrun

end Endings

section Reclaim

theorem conforms_finishEmergencyRemove (s : Settings) {ns nodeName : String} {client : Client}
    (hns : r.ns = some ns) (hg : Governed r) (hr : Reclaiming r h) (hb : Bound r h nodeName)
    (hrec : Recorded h .emergencyRemove) (hn : NoCreate h) :
    Conforms r (finishEmergencyRemove s r ns client nodeName) h := by
  refine (keeps_removeMachine s hns hn (.reclaimed hg hr hrec)).then fun _ h₁ hrem => ?_
  obtain ⟨hsteady, hrem⟩ := hrem
  replace hr := hr.after fun _ => hsteady.mem
  replace hb := hb.after fun _ => hsteady.mem
  replace hn := hn.after hsteady
  refine (keeps_ask (.disableSchedule hg hr hrem hn)).then fun x h₂ hh₂ => ?_
  cases x with
  | error e => exact ⟨trivial⟩
  | ok _ =>
    have hb₂ : Bound r h₂ nodeName := by
      rw [hh₂]
      exact hb.after fun _ => List.mem_cons_of_mem _
    have hmoves : Moves r h₂ .disabled reasonScheduleDisabled := by
      subst hh₂
      refine .reclaimed hg (hr.after fun _ => List.mem_cons_of_mem _) (fun x hx => ?_)
        List.mem_cons_self
      rcases List.mem_cons.mp hx with rfl | hx
      · rfl
      · exact hn x hx
    refine (keeps_check (.ok ())).then fun _ h₂' hh => ?_
    obtain ⟨_, rfl⟩ := hh
    refine (keeps_quiet (quietly_publish _)).then fun _ h₃ hq₃ => ?_
    have hclear : Permitted r h₃ (.patchNode client nodeName buildClearReclaimPatch) :=
      .quiet rfl (fun h => by cases h) fun _ => .patchNode (hb₂.after fun _ => hq₃.mem)
    refine keeps_ask_bind hclear fun x => ?_
    have hq₄ : Quieter _ (⟨.patchNode client nodeName buildClearReclaimPatch, x⟩ :: h₃) :=
      hq₃.cons rfl x
    exact (keeps_recordPhase (hmoves.pad hq₄.padded)).then fun _ _ _ => ⟨trivial⟩

theorem conforms_handleEmergencyRemove (s : Settings) {nodeName : String}
    {request : ReclaimRequest} (hg : Governed r) (hr : Reclaiming r h) (hb : Bound r h nodeName)
    (hs : Steady h) : Conforms r (handleEmergencyRemove s r nodeName request) h := by
  refine keeps_namespaceOf.then fun ns h₀ hns => ?_
  obtain ⟨hns, rfl⟩ := hns
  refine (keeps_quiet (quietly_publish _)).then fun _ h₁ hq₁ => ?_
  have hmoves := Moves.emergencyRemove hg hr hs
  refine (keeps_recordPhase (hmoves.pad hq₁.padded)).then fun _ h₂ hg₂ => ?_
  obtain ⟨hg₂, hrec⟩ := hg₂
  refine (keeps_quiet (quietly_noteReclaim r)).then fun _ h₃ hq₃ => ?_
  refine (keeps_quiet (calls_call rfl)).then fun x h₄ hq₄ => ?_
  refine (keeps_quiet (calls_check x)).then fun client h₅ hq₅ => ?_
  have hq₂ : Quieter h₂ h₅ := (hq₃.trans hq₄).trans hq₅
  have hmem : ∀ y ∈ h₀, y ∈ h₅ := fun y hy => hq₂.mem (hg₂.mem (hq₁.mem hy))
  replace hrec := hrec.after fun _ => hq₂.mem
  replace hr := hr.after hmem
  replace hb := hb.after hmem
  have hfinish : ∀ h₆, Quieter h₅ h₆ → Conforms r (finishEmergencyRemove s r ns client nodeName) h₆ := by
    intro h₆ hq₆
    have hn : NoCreate h₂ := hg₂.forall (hq₁.padded.noCreate hs.noCreate)
    exact conforms_finishEmergencyRemove s hns hg (hr.after fun _ => hq₆.mem)
      (hb.after fun _ => hq₆.mem) (hrec.after fun _ => hq₆.mem)
      ((Quieter.padded (hq₂.trans hq₆)).noCreate hn)
  exact (keeps_drain client _ (.reclaimed hg hr hrec) hb).attempt (fun _ h₆ => hfinish h₆)
    fun _ h₆ => hfinish h₆

theorem keeps_checkEmergencyReclaim (s : Settings) (hg : Governed r) (hs : Steady h) :
    Keeps (Permitted r) (checkEmergencyReclaim s r) h
      (fun action h' => action = none → Calmer h h' ∧ NotReclaiming r h') fun _ _ => True := by
  unfold checkEmergencyReclaim
  cases href : r.nodeRef with
  | none => exact ⟨fun _ => ⟨.refl h, Or.inl fun nodeRef h => by simp [href] at h⟩⟩
  | some nodeRef =>
    simp only
    split
    · rename_i hempty
      refine ⟨fun _ => ⟨.refl h, Or.inl fun nodeRef' h => ?_⟩⟩
      cases href.symm.trans h
      exact hempty
    · rename_i hname
      refine keeps_ask_bind (.calm rfl) fun child => ?_
      refine keeps_checked _ (fun client _ => ?_) fun _ => trivial
      refine (keeps_ask (.calm rfl)).bind (fun x h₃ hh₃ => ?_) fun _ _ hf => hf.elim
      have hq : Calmer h h₃ := by
        subst hh₃
        exact .cons (.cons (.refl h) (by rfl) child) (by rfl) x
      have hmem : ⟨.getNode client nodeRef.name, x⟩ ∈ h₃ := by
        subst hh₃
        exact List.mem_cons_self
      cases x with
      | error e =>
        simp only
        split
        · rename_i hnot
          exact ⟨fun _ => ⟨hq, Or.inr ⟨nodeRef, client, .error e, href, hmem, hnot⟩⟩⟩
        · exact ⟨trivial⟩
      | ok node =>
        cases hrequest : nodeReclaimRequest node with
        | none =>
          simp only [hrequest]
          exact ⟨fun _ => ⟨hq, Or.inr ⟨nodeRef, client, .ok node, href, hmem, hrequest⟩⟩⟩
        | some request =>
          have hr : Reclaiming r h₃ := by
            refine ⟨nodeRef, client, node, href, by simpa using hname, hmem, ?_⟩
            simp [hrequest]
          have hb : Bound r h₃ nodeRef.name := .reclaimed href hmem (by simp [hrequest])
          simp only [hrequest]
          refine (conforms_handleEmergencyRemove s hg hr hb (hq.quieter.padded.steady hs)).bind
            (fun _ _ _ => ⟨fun hnone => ?_⟩) fun _ _ _ => trivial
          cases hnone

end Reclaim

section Handlers

theorem keeps_resolveSchedule {ns : String} :
    Keeps (Permitted r) (resolveSchedule ns r.spec.schedule) h
      (fun v h' => Calmer h h' ∧ Heard r h' v ∧ heardActive h' = some v.isActive?)
      fun _ _ => True := by
  unfold resolveSchedule resolveSpotSchedule
  refine Keeps.bind (Q := fun v h' => ∀ w, v = .ok w →
      Calmer h h' ∧ Heard r h' w ∧ heardActive h' = some w.isActive?)
    (E := fun _ _ => True) ?_ (fun v h' hv => ?_) fun _ _ _ => trivial
  · refine (keeps_ask (.calm rfl)).bind (fun x h₁ hh₁ => ?_) fun _ _ hf => hf.elim
    subst hh₁
    cases x with
    | error e =>
      refine ⟨fun w hw => ?_⟩
      cases hw
      exact ⟨.cons (.refl h) (by rfl) _, .noKind List.mem_cons_self, rfl⟩
    | ok _ =>
      refine (keeps_ask (.calm rfl)).bind (fun y h₂ hh₂ => ?_) fun _ _ hf => hf.elim
      subst hh₂
      match y with
      | .error e => exact ⟨fun w hw => by cases hw⟩
      | .ok none =>
        refine ⟨fun w hw => ?_⟩
        cases hw
        exact ⟨.cons (.cons (.refl h) (by rfl) _) (by rfl) _, .noObject List.mem_cons_self, rfl⟩
      | .ok (some object) =>
        refine ⟨fun w hw => ?_⟩
        cases hw
        exact ⟨.cons (.cons (.refl h) (by rfl) _) (by rfl) _, .object List.mem_cons_self, rfl⟩
  · cases v with
    | error e => exact ⟨trivial⟩
    | ok w => exact ⟨hv w rfl⟩

theorem keeps_transitionTime (transitioned : Bool) :
    Keeps (Permitted r) (transitionTime transitioned) h
      (fun time h' => Calmer h h' ∧ heardActive h' = heardActive h ∧
        if transitioned then ∃ now, clockReading h' = some now ∧ time = some (.at now)
        else time = none)
      fun _ _ => True := by
  cases transitioned with
  | false => exact ⟨.refl h, rfl, rfl⟩
  | true => exact keeps_ask_bind (.calm rfl) fun now => ⟨.cons (.refl h) (by rfl) _, rfl, now, rfl, rfl⟩

theorem keeps_persistSpotScheduleStatus {verdict : SpotScheduleVerdict}
    (hu : Unreported h) (hheard : heardActive h = some verdict.isActive?) :
    Keeps (Permitted r)
      (persistSpotScheduleStatus verdict r.lastKnownSpotActive r.spotSchedule) h
      (fun _ h' => Quieter h h' ∧ heardActive h' = some verdict.isActive? ∧
        Stored r h' verdict.isActive?)
      fun _ _ => True := by
  refine (keeps_transitionTime _).bind (fun time h₁ htime => ?_) fun _ _ _ => trivial
  obtain ⟨hq₁, hsame, htime⟩ := htime
  replace hheard := hsame.trans hheard
  replace hu := hu.after hq₁
  simp only
  split
  · rename_i hsame
    have hactive : r.lastKnownSpotActive = verdict.isActive?.or r.lastKnownSpotActive :=
      congrArg (fun o : Option SpotScheduleStatus => o.bind fun s => s.active) hsame
    exact ⟨hq₁.quieter, hheard, Or.inr ⟨hu, hactive.symm⟩⟩
  · refine keeps_ask_bind (.quiet rfl (fun h => by cases h) fun _ => ?_) fun x => ?_
    · exact .mirror hu hheard rfl htime
    · cases x with
      | error e => exact ⟨trivial⟩
      | ok _ => exact ⟨hq₁.quieter.cons rfl _, hheard, Or.inl ⟨_, rfl, List.mem_cons_self⟩⟩

variable {shouldBeActive : Bool}

theorem conforms_handlePendingPhase (s : Settings) (hg : Governed r)
    (hpending : isPending r.phase = true) (hc : Composed r h shouldBeActive) (hs : Steady h) :
    Conforms r (handlePendingPhase s r shouldBeActive) h := by
  refine keeps_namespaceOf.then fun ns h₀ hns => ?_
  obtain ⟨hns, rfl⟩ := hns
  split
  · rename_i he
    exact conforms_moveTo (.disabled hg hpending (by simpa using he) hs)
  · rename_i he
    have he : r.spec.enabled = true := by simpa using he
    split
    · rename_i hshould
      have hshould : shouldBeActive = false := by simpa using hshould
      exact conforms_moveTo (.closed hg hpending he (hshould ▸ hc) hs)
    · rename_i hshould
      have hshould : shouldBeActive = true := by simpa using hshould
      have ha : Adding r h₀ := ⟨hg, by simp [hns], hpending, he, hshould ▸ hc⟩
      refine (keeps_addMachine s hns ha hs).attempt (fun _ h₁ hg₁ => ?_) fun e h₁ hg₁ => ?_
      · obtain ⟨hg₁, hmade⟩ := hg₁
        exact conforms_moveTo (.added (ha.after fun _ => hg₁.mem) (hs.noPhase.after hg₁) hmade)
      · exact conforms_moveTo (.addFailed (ha.after fun _ => hg₁.mem) (hs.noPhase.after hg₁))

theorem conforms_handleActivePhase (hg : Governed r) (hphase : r.phase = some .active)
    (hc : Composed r h shouldBeActive) (hs : Steady h) :
    Conforms r (handleActivePhase r shouldBeActive) h := by
  refine keeps_namespaceOf.then fun ns h₀ hns => ?_
  obtain ⟨hns, rfl⟩ := hns
  split
  · rename_i he
    have he : r.spec.enabled = false := by simpa using he
    exact (keeps_recordPhase (.shutdownDisabled hg hphase he hs)).then fun _ _ _ => ⟨trivial⟩
  · rename_i he
    have he : r.spec.enabled = true := by simpa using he
    split
    · rename_i hshould
      have hshould : shouldBeActive = false := by simpa using hshould
      exact (keeps_recordPhase (.shutdownClosed hg hphase he (hshould ▸ hc) hs)).then
        fun _ _ _ => ⟨trivial⟩
    · exact conforms_quiet ((quietly_enrichActive r ns).bind fun _ => calls_pure _)

theorem keeps_checkGracePeriodElapsed :
    Keeps (Permitted r) (checkGracePeriodElapsed r) h
      (fun elapsed h' => Quieter h h' ∧ (elapsed = true → GraceOver r h')) fun _ _ => True := by
  unfold checkGracePeriodElapsed
  refine keeps_checked _ (fun recorded hrecorded => ?_) fun _ => trivial
  cases recorded with
  | none => exact ⟨.refl h, fun _ => Or.inl hrecorded⟩
  | some period =>
    obtain ⟨start, timeout⟩ := period
    refine (keeps_ask (.calm rfl)).bind (fun now h' hh => ?_) fun _ _ hf => hf.elim
    subst hh
    refine ⟨.cons (.refl h) (by rfl) _, fun helapsed => Or.inr ?_⟩
    exact ⟨start, timeout, now, hrecorded, List.mem_cons_self, helapsed⟩

theorem conforms_handleShuttingDownPhase (s : Settings) (hg : Governed r)
    (hphase : r.phase = some .shuttingDown) (hs : Steady h) :
    Conforms r (handleShuttingDownPhase s r) h := by
  refine keeps_namespaceOf.then fun ns h₀ hns => ?_
  obtain ⟨hns, rfl⟩ := hns
  refine keeps_checkGracePeriodElapsed.then fun elapsed h₁ hel => ?_
  obtain ⟨hq₁, hover⟩ := hel
  replace hs := hq₁.padded.steady hs
  split
  · rename_i helapsed
    refine (keeps_ask (.elapsed hg hphase (hover helapsed) hs)).then fun _ h₂ hh₂ => ?_
    have hs₂ : Steady h₂ := by
      subst hh₂
      exact hs.after (.cons (.refl h₁) (by rfl) _)
    have hrem : Removing r h₂ := by
      subst hh₂
      exact .elapsed hphase List.mem_cons_self
    refine (keeps_drainBeforeRemoval hns hrem).then fun _ h₃ hq₃ => ?_
    have hs₃ := hq₃.padded.steady hs₂
    replace hrem := hrem.after fun _ => hq₃.mem
    refine (keeps_removeMachine s hns hs₃.noCreate hrem).attempt (fun _ h₄ hr => ?_) fun e h₄ hr => ?_
    · exact conforms_moveTo (.removed hg hphase hr.2 (hs₃.after hr.1))
    · exact conforms_moveTo (.removeFailed hg hphase (hs₃.after hr))
  · exact ⟨trivial⟩

end Handlers

section Reconcile

variable {shouldBeActive : Bool}

theorem conforms_handleInactivePhase (hg : Governed r) (hphase : r.phase = some .inactive)
    (hc : Composed r h shouldBeActive) (hs : Steady h) :
    Conforms r (handleInactivePhase r shouldBeActive) h := by
  refine keeps_namespaceOf.then fun ns h₀ hns => ?_
  obtain ⟨_, rfl⟩ := hns
  split
  · exact ⟨trivial⟩
  · rename_i he
    have he : r.spec.enabled = true := by simpa using he
    split
    · exact ⟨trivial⟩
    · rename_i hshould
      have hshould : shouldBeActive = true := by simpa using hshould
      exact conforms_moveTo (.opened hg hphase he (hshould ▸ hc) hs)

theorem conforms_handleDisabledPhase (hg : Governed r) (hphase : r.phase = some .disabled)
    (hs : Steady h) : Conforms r (handleDisabledPhase r) h := by
  refine keeps_namespaceOf.then fun ns h₀ hns => ?_
  obtain ⟨_, rfl⟩ := hns
  split
  · rename_i he
    exact conforms_moveTo (.reenabled hg hphase he hs)
  · exact ⟨trivial⟩

theorem conforms_handleEmergencyRemovePhase (hg : Governed r)
    (hphase : r.phase = some .emergencyRemove) (hr : NotReclaiming r h) (hs : Steady h) :
    Conforms r (handleEmergencyRemovePhase r) h := by
  refine keeps_namespaceOf.then fun ns h₀ hns => ?_
  obtain ⟨_, rfl⟩ := hns
  exact conforms_moveTo (.recovered hg hphase hr hs)

theorem conforms_dispatchPhase (s : Settings) (hg : Governed r) (hr : NotReclaiming r h)
    (hc : Composed r h shouldBeActive) (hs : Steady h) :
    Conforms r (dispatchPhase s r shouldBeActive) h := by
  unfold dispatchPhase
  split
  · rename_i hphase
    exact conforms_handleActivePhase hg hphase hc hs
  · rename_i hphase
    exact conforms_handleShuttingDownPhase s hg hphase hs
  · rename_i hphase
    exact conforms_handleInactivePhase hg hphase hc hs
  · rename_i hphase
    exact conforms_handleDisabledPhase hg hphase hs
  · exact ⟨trivial⟩
  · rename_i hphase
    exact conforms_handleEmergencyRemovePhase hg hphase hr hs
  · exact conforms_quiet ((calls_namespaceOf r).bind fun _ => calls_pure _)
  · have hpending : isPending r.phase = true := by
      cases hphase : r.phase with
      | none => rfl
      | some phase => cases phase <;> simp_all [isPending]
    exact conforms_handlePendingPhase s hg hpending hc hs

theorem conforms_reconcileInner (s : Settings) (hlive : r.deletionTimestamp = none)
    (hf : hasFinalizer r = true) (hs : Steady h) (hu : Unreported h) :
    Conforms r (reconcileInner s r) h := by
  refine keeps_namespaceOf.then fun ns h₀ hns => ?_
  obtain ⟨_, rfl⟩ := hns
  refine keeps_checked _ (fun _ _ => ?_) fun _ => trivial
  refine keeps_checked _ (fun _ _ => ?_) fun _ => trivial
  refine keeps_checked _ (fun _ _ => ?_) fun _ => trivial
  split
  · rename_i hk
    exact conforms_handleKillSwitch s ⟨hlive, hf, hk⟩ hs
  · rename_i hk
    have hg : Governed r := ⟨hlive, hf, by simpa using hk⟩
    refine (keeps_checkEmergencyReclaim s hg hs).then fun action h₁ haction => ?_
    cases action with
    | some action => exact ⟨trivial⟩
    | none =>
      obtain ⟨hq₁, hr⟩ := haction rfl
      refine keeps_resolveSchedule.then fun verdict h₂ hv => ?_
      obtain ⟨hq₂, hheard, hactive⟩ := hv
      refine (keeps_persistSpotScheduleStatus ((hu.after hq₁).after hq₂) hactive).then fun _ h₃ hp => ?_
      obtain ⟨hq₃, hactive, hstored⟩ := hp
      have hevaluated : Permitted r h₃ (.info (.scheduleEvaluated
          (composeShouldBeActive verdict r.lastKnownSpotActive))) := by
        refine .quiet rfl (fun h => by cases h) fun _ => ?_
        rw [composeShouldBeActive_eq]
        exact .evaluated hactive hstored
      refine keeps_ask_bind hevaluated fun x => ?_
      replace hq₃ : Quieter h₂ (⟨_, x⟩ :: h₃) := hq₃.cons rfl x
      refine conforms_dispatchPhase s hg (hr.after fun _ hx => hq₃.mem (hq₂.mem hx)) ?_ ?_
      · exact Composed.after ⟨verdict, hheard, rfl⟩ fun _ => hq₃.mem
      · exact hq₃.padded.steady (hq₂.quieter.padded.steady (hq₁.quieter.padded.steady hs))

theorem reconcile_conforms (s : Settings) (r : ScheduledMachine) :
    Conforms r (reconcileScheduledMachine s r) [] := by
  refine keeps_namespaceOf.then fun ns h₀ hns => ?_
  obtain ⟨_, rfl⟩ := hns
  refine (keeps_ask (.calm rfl)).then fun leader h₁ hh₁ => ?_
  have hs : Steady h₁ := by
    subst hh₁
    intro x hx
    rcases List.mem_cons.mp hx with rfl | hx
    · rfl
    · cases hx
  have hu : Unreported h₁ := by
    subst hh₁
    intro x hx
    rcases List.mem_cons.mp hx with rfl | hx
    · rfl
    · cases hx
  split
  · exact ⟨trivial⟩
  · split
    · exact ⟨trivial⟩
    · split
      · rename_i hd
        exact conforms_handleDeletion s hd hs
      · rename_i hd
        split
        · refine (keeps_namespaceOf).then fun _ h₂ hns₂ => ?_
          obtain ⟨_, rfl⟩ := hns₂
          have hf : finalizerScheduledMachine ∈
              (if (r.finalizers.getD []).contains finalizerScheduledMachine then r.finalizers.getD []
                else r.finalizers.getD [] ++ [finalizerScheduledMachine]) := by
            split
            · rename_i hmem
              simpa using hmem
            · simp
          exact (keeps_ask (.addFinalizer hf)).then fun x h₃ _ =>
            conforms_quiet ((calls_orKubeError x).bind fun _ => calls_pure _)
        · rename_i hf
          have hlive : r.deletionTimestamp = none := by simpa using hd
          exact conforms_reconcileInner s hlive (by simpa using hf) hs hu

end Reconcile

def machineContract : Contract Request Response World (Except ReconcilerError Action) where
  answers := fun _ _ _ => True
  permits := fun w => Permitted w.machine
  returns := fun _ _ _ => True

theorem machineContract_binds (w : World) :
    machineContract.Binds w [] (machineSystem.program w) := by
  refine (reconcile_conforms w.settings w.machine).meets.mono fun _ _ _ => trivial

end FiveSpot.Machine
