import FiveSpot.Machine.ScheduleMirror

/-!
# When the mirror of the schedule comes to rest

`persist_spot_schedule_status` compares the stored status with the one it would like to store, and
sends a merge patch if they differ. A member that the patch leaves out stays as it was, so that the
stored status can differ from the wanted one for ever.
-/

namespace FiveSpot.Machine

set_option autoImplicit false

open Effects

def mirrorStep (verdict : SpotScheduleVerdict) (w : World) : Reconcile Unit :=
  persistSpotScheduleStatus verdict w.machine.lastKnownSpotActive w.machine.spotSchedule

def mirrorOnce (verdict : SpotScheduleVerdict) (w : World) : World × List Request :=
  machineSystem.complete .ok w (mirrorStep verdict w).run

/-- The stored status says what the verdict says; an unresolved one holds `held`. -/
structure Faithful (verdict : SpotScheduleVerdict) (held : Option Bool)
    (stored : SpotScheduleStatus) : Prop where
  resolved : stored.resolved = verdict.isResolved
  active : stored.active = verdict.isActive?.or held
  reason : stored.reason = some verdict.reason
  message : stored.message = verdict.unresolvedMessage
  providerGeneration : stored.providerGeneration = verdict.providerGeneration

def patchless (qs : List Request) : Bool :=
  qs.all fun
    | .patchStatus _ => false
    | _ => true

/-- One step makes the mirror faithful, and in any world with that mirror there is nothing more to
patch. -/
structure Rests (verdict : SpotScheduleVerdict) (w : World) : Prop where
  faithful : ∃ stored, (mirrorOnce verdict w).1.machine.spotSchedule = some stored ∧
    Faithful verdict w.machine.lastKnownSpotActive stored
  quiescent : ∀ w' : World,
    w'.machine.spotSchedule = (mirrorOnce verdict w).1.machine.spotSchedule →
      patchless (mirrorOnce verdict w').2 = true

/-- What the verdict does not have is not stored either. -/
structure NothingStale (verdict : SpotScheduleVerdict) (m : ScheduledMachine) : Prop where
  message : verdict.unresolvedMessage = none → (m.spotSchedule.bind fun s => s.message) = none
  providerGeneration : verdict.providerGeneration = none →
    (m.spotSchedule.bind fun s => s.providerGeneration) = none

section Step

variable {verdict : SpotScheduleVerdict} {w : World}

/-- The time that goes with the verdict, if it changes the value. -/
def mirrorTime (verdict : SpotScheduleVerdict) (w : World) : Option Timestamp :=
  if transitions verdict.isActive? w.machine.lastKnownSpotActive then some (.at w.clock) else none

def wantedMirror (verdict : SpotScheduleVerdict) (w : World) : SpotScheduleStatus where
  resolved := verdict.isResolved
  active := verdict.isActive?.or w.machine.lastKnownSpotActive
  reason := some verdict.reason
  message := verdict.unresolvedMessage
  providerGeneration := verdict.providerGeneration
  lastTransitionTime := (mirrorTime verdict w).or w.machine.lastTransitionTime

def mirrorPatch (verdict : SpotScheduleVerdict) (w : World) : SpotSchedulePatch where
  resolved := verdict.isResolved
  reason := verdict.reason
  active := verdict.isActive?.or w.machine.lastKnownSpotActive
  message := verdict.unresolvedMessage
  providerGeneration := verdict.providerGeneration
  lastTransitionTime := mirrorTime verdict w

def mirrorReadings (verdict : SpotScheduleVerdict) (w : World) : List Request :=
  if transitions verdict.isActive? w.machine.lastKnownSpotActive then [.now] else []

theorem complete_mirror (current : Option SpotScheduleStatus) (wanted : SpotScheduleStatus)
    (patch : SpotSchedulePatch) :
    machineSystem.complete .ok w (ExceptT.run (if current = some wanted then pure ()
      else do orKubeError (← call (.patchStatus { spotSchedule := some patch })) : Reconcile Unit)) =
      if current = some wanted then (w, [])
      else (w.patchStatus { spotSchedule := some patch },
        [.patchStatus { spotSchedule := some patch }]) := by
  split <;> rfl

theorem mirrorOnce_eq : mirrorOnce verdict w =
    if w.machine.spotSchedule = some (wantedMirror verdict w) then
      (w, mirrorReadings verdict w)
    else
      (w.patchStatus { spotSchedule := some (mirrorPatch verdict w) },
        mirrorReadings verdict w ++
          [.patchStatus { spotSchedule := some (mirrorPatch verdict w) }]) := by
  unfold mirrorOnce mirrorStep persistSpotScheduleStatus wantedMirror mirrorPatch mirrorTime
    mirrorReadings
  cases htransitions : transitions verdict.isActive? w.machine.lastKnownSpotActive with
  | false =>
    unfold transitions at htransitions
    simp only [htransitions]
    exact complete_mirror _ _ _
  | true =>
    unfold transitions at htransitions
    simp only [htransitions, if_true]
    refine (congrArg (fun done : World × List Request => (done.1, Request.now :: done.2))
      (complete_mirror _ _ _)).trans ?_
    exact apply_ite (fun done : World × List Request => (done.1, Request.now :: done.2)) _ _ _

theorem spotSchedule_mirrorOnce :
    (mirrorOnce verdict w).1.machine.spotSchedule =
      if w.machine.spotSchedule = some (wantedMirror verdict w) then some (wantedMirror verdict w)
      else some ((mirrorPatch verdict w).apply w.machine.spotSchedule) := by
  rw [mirrorOnce_eq]
  split
  · assumption
  · simp [World.patchStatus, ScheduledMachine.spotSchedule]

theorem faithful_wantedMirror :
    Faithful verdict w.machine.lastKnownSpotActive (wantedMirror verdict w) :=
  ⟨rfl, rfl, rfl, rfl, rfl⟩

/-- Without stale members the patch stores exactly the wanted mirror. -/
theorem NothingStale.apply_eq (hs : NothingStale verdict w.machine) :
    (mirrorPatch verdict w).apply w.machine.spotSchedule = wantedMirror verdict w := by
  have hactive : (verdict.isActive?.or w.machine.lastKnownSpotActive).or
      w.machine.lastKnownSpotActive = verdict.isActive?.or w.machine.lastKnownSpotActive := by
    rw [Option.or_assoc, Option.or_self]
  have hmessage : verdict.unresolvedMessage.or (w.machine.spotSchedule.bind fun s => s.message) =
      verdict.unresolvedMessage := by
    cases hv : verdict.unresolvedMessage with
    | none => exact hs.message hv
    | some _ => rfl
  have hgeneration : verdict.providerGeneration.or
      (w.machine.spotSchedule.bind fun s => s.providerGeneration) = verdict.providerGeneration := by
    cases hv : verdict.providerGeneration with
    | none => exact hs.providerGeneration hv
    | some _ => rfl
  unfold SpotSchedulePatch.apply wantedMirror
  congr 1

theorem wantedMirror_stable {w' : World}
    (hstored : w'.machine.spotSchedule = some (wantedMirror verdict w)) :
    w'.machine.spotSchedule = some (wantedMirror verdict w') := by
  have hheld : w'.machine.lastKnownSpotActive =
      verdict.isActive?.or w.machine.lastKnownSpotActive := by
    unfold ScheduledMachine.lastKnownSpotActive
    rw [hstored]
    rfl
  have hno : transitions verdict.isActive? w'.machine.lastKnownSpotActive = false := by
    rw [hheld]
    cases verdict.isActive? <;> simp [transitions]
  have htime : (mirrorTime verdict w').or w'.machine.lastTransitionTime =
      (wantedMirror verdict w).lastTransitionTime := by
    unfold mirrorTime ScheduledMachine.lastTransitionTime
    rw [hno, hstored]
    rfl
  rw [hstored]
  refine congrArg some ?_
  unfold wantedMirror
  congr 1
  · rw [hheld, ← Option.or_assoc, Option.or_self]
  · exact htime.symm

/-- The mirror comes to rest after one step exactly if nothing stale is stored. -/
theorem mirror_rests_iff (verdict : SpotScheduleVerdict) (w : World) :
    Rests verdict w ↔ NothingStale verdict w.machine := by
  constructor
  · rintro ⟨⟨stored, hstored, hfaithful⟩, _⟩
    rw [spotSchedule_mirrorOnce] at hstored
    split at hstored
    · rename_i hsame
      exact ⟨fun hv => by rw [hsame]; exact hv, fun hv => by rw [hsame]; exact hv⟩
    · cases hstored
      constructor
      · intro hv
        have hmessage := hfaithful.message
        change verdict.unresolvedMessage.or _ = _ at hmessage
        rwa [hv] at hmessage
      · intro hv
        have hgeneration := hfaithful.providerGeneration
        change verdict.providerGeneration.or _ = _ at hgeneration
        rwa [hv] at hgeneration
  · intro hs
    have hstored : (mirrorOnce verdict w).1.machine.spotSchedule =
        some (wantedMirror verdict w) := by
      rw [spotSchedule_mirrorOnce, hs.apply_eq, ite_self]
    refine ⟨⟨_, hstored, faithful_wantedMirror⟩, fun w' hw' => ?_⟩
    rw [mirrorOnce_eq, if_pos (wantedMirror_stable (hw'.trans hstored))]
    unfold mirrorReadings
    split <;> rfl

end Step

def sampleUnresolved : World :=
  (mirrorOnce (.unresolved reasonSpotScheduleProviderNotFound "not found") sampleWorld).1

/-- Once the provider is found its message stays behind, and every further step patches the same
status again. -/
theorem stale_message_never_rests :
    let once := (mirrorOnce (.active none) sampleUnresolved).1
    (once.machine.spotSchedule.bind fun s => s.message) = some "not found" ∧
      patchless (mirrorOnce (.active none) once).2 = false ∧
      (mirrorOnce (.active none) once).1.machine.spotSchedule = once.machine.spotSchedule ∧
      ¬ Rests (.active none) sampleUnresolved := by
  refine ⟨by decide +kernel, by decide +kernel, by decide +kernel, fun h => ?_⟩
  have hpatchless := h.quiescent (mirrorOnce (.active none) sampleUnresolved).1 rfl
  exact absurd hpatchless (by decide +kernel)

end FiveSpot.Machine
