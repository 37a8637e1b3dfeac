import FiveSpot.Machine.Frame

/-!
# The schedule as it is held

What a provider said last is kept in `status.spotSchedule` and used while the provider is silent. A
listener that only sees the calls and their answers keeps the same value: it takes over what was
heard when the patch takes effect, or when the schedule is evaluated without one.
-/

namespace FiveSpot.Machine

set_option autoImplicit false

open Effects

/-- What a listener knows: the value held and since when, and what the reconcile in flight heard of
the provider and read off the clock. -/
structure Listener where
  held : Option Bool
  since : Option Instant
  heard : Option (Option Bool)
  reading : Option Instant

namespace Listener

def clear (l : Listener) : Listener := { l with heard := none, reading := none }

def hear (l : Listener) (x : Sigma Response) : Listener :=
  { l with heard := (hearsActive x).or l.heard, reading := (readsClock x).or l.reading }

/-- Take over a resolved verdict; the time changes only with the value. -/
def commit (l : Listener) : Listener :=
  match l.heard with
  | some (some active) =>
      if l.held = some active then l else { l with held := some active, since := l.reading }
  | _ => l

end Listener

/-- The verdict counts: its patch takes effect, or the schedule is evaluated. -/
def settles (q : Request) (c : Answer) : Bool :=
  match q with
  | .patchStatus p => p.spotSchedule.isSome && c.applied
  | .info (.scheduleEvaluated _) => true
  | _ => false

def listen : MachineTrace → Listener
  | [] => ⟨none, none, none, none⟩
  | .started _ :: t => (listen t).clear
  | .called w q c :: t =>
      let heard := (listen t).hear ⟨q, (w.exec q c).1⟩
      if settles q c then heard.commit else heard
  | _ :: t => listen t

/-- A schedule is evaluated to the value that is held. -/
structure EvaluatesHeld (o : MachineObs) (t : MachineTrace) : Prop where
  evaluated : ∀ w active c, o = .called w (.info (.scheduleEvaluated active)) c →
    active = (listen (o :: t)).held.getD false

/-- Nobody else writes `status.spotSchedule`; calls may fail and the process may end at any time. -/
def mirrorGuard : MachineGuard where
  move v w := w.machine.spotSchedule = v.world.machine.spotSchedule
  start _ := True
  call _ _ _ := True
  crash _ := True

def ScheduledMachine.lastTransitionTime (m : ScheduledMachine) : Option Timestamp :=
  m.spotSchedule.bind fun s => s.lastTransitionTime

section Effect

variable {w : World} {q : Request} {c : Answer}

theorem lastKnownSpotActive_congr {m m' : ScheduledMachine}
    (hm : m'.spotSchedule = m.spotSchedule) : m'.lastKnownSpotActive = m.lastKnownSpotActive := by
  unfold ScheduledMachine.lastKnownSpotActive
  rw [hm]

theorem spotSchedule_machineAfter (hq : q.reports = false) :
    (machineAfter w q c).spotSchedule = w.machine.spotSchedule := by
  cases q with
  | patchStatus p =>
    have hp : p.spotSchedule = none := by simpa [Request.reports] using hq
    simp only [machineAfter]
    split
    · simp [World.patchStatus, ScheduledMachine.spotSchedule, hp]
    · rfl
  | _ =>
    unfold ScheduledMachine.spotSchedule
    rw [status_machineAfter c fun p h => by cases h]

theorem spotSchedule_mirrored {patch : SpotSchedulePatch} :
    (machineAfter w (.patchStatus { spotSchedule := some patch }) c).spotSchedule =
      if c.applied then some (patch.apply w.machine.spotSchedule) else w.machine.spotSchedule := by
  simp only [machineAfter]
  split
  · simp [World.patchStatus, ScheduledMachine.spotSchedule]
  · rfl

theorem warranted_of_reports {r : ScheduledMachine} {h : Log} (hq : Permitted r h q)
    (hreports : q.reports = true) : Warranted r h q := by
  cases hq with
  | quiet _ _ hw =>
    refine hw ?_
    cases hcalm : q.calm with
    | false => rfl
    | true => cases (Request.reports_of_calm hcalm).symm.trans hreports
  | _ => cases hreports

end Effect

/-- What is stored is what the listener holds. -/
structure Held (m : ScheduledMachine) (l : Listener) : Prop where
  active : m.lastKnownSpotActive = l.held
  since : m.lastTransitionTime = l.since.map .at

/-- What a reconcile in flight has heard and stored. -/
structure Attentive (m : ScheduledMachine) (l : Listener) (cur : Current Request Response World) :
    Prop where
  heard : l.heard = heardActive cur.done
  reading : l.reading = clockReading cur.done
  kept : Unreported cur.done → m.spotSchedule = cur.snapshot.machine.spotSchedule
  stored : ∀ patch : SpotSchedulePatch,
    ⟨.patchStatus { spotSchedule := some patch }, .ok ()⟩ ∈ cur.done →
      m.lastKnownSpotActive = patch.active

structure Mirrored (v : MachineView) : Prop where
  held : Held v.world.machine (listen v.trace)
  flight : ∀ cur, v.current = some cur → Attentive v.world.machine (listen v.trace) cur
  evaluated : Throughout EvaluatesHeld v.trace

section Step

variable {v : MachineView} {m : ScheduledMachine} {l : Listener}
  {cur : Current Request Response World} {q : Request} {c : Answer}

theorem Held.congr {m' : ScheduledMachine} {l' : Listener} (hH : Held m l)
    (hm : m'.spotSchedule = m.spotSchedule) (hheld : l'.held = l.held)
    (hsince : l'.since = l.since) : Held m' l' where
  active := by
    rw [hheld, ← hH.active]
    exact lastKnownSpotActive_congr hm
  since := by
    rw [hsince, ← hH.since]
    unfold ScheduledMachine.lastTransitionTime
    rw [hm]

theorem Listener.commit_of_heard {active : Option Bool} (hheard : l.heard = some active)
    (hactive : active.or l.held = l.held) : l.commit = l := by
  cases active with
  | none => simp [commit, hheard]
  | some b =>
    have hheld : l.held = some b := hactive.symm
    simp [commit, hheard, hheld]

theorem Held.patched {active : Option Bool} {patch : SpotSchedulePatch} (hH : Held m l)
    (hheard : l.heard = some active) (hactive : patch.active = active.or m.lastKnownSpotActive)
    (htime : if transitions active m.lastKnownSpotActive then
      ∃ now, l.reading = some now ∧ patch.lastTransitionTime = some (.at now)
      else patch.lastTransitionTime = none) :
    (patch.apply m.spotSchedule).active = l.commit.held ∧
      (patch.apply m.spotSchedule).lastTransitionTime = l.commit.since.map .at := by
  have hstored : (patch.apply m.spotSchedule).active = active.or l.held := by
    change patch.active.or m.lastKnownSpotActive = _
    rw [hactive, hH.active]
    cases active <;> simp
  have hsince : (patch.apply m.spotSchedule).lastTransitionTime =
      patch.lastTransitionTime.or (l.since.map .at) := by
    rw [← hH.since]
    rfl
  rw [hstored, hsince]
  rw [hH.active] at htime
  by_cases hsame : active.or l.held = l.held
  · rw [Listener.commit_of_heard hheard hsame]
    have hno : transitions active l.held = false := by
      cases active with
      | none => rfl
      | some b =>
        have hheld : l.held = some b := hsame.symm
        simp [transitions, hheld]
    rw [if_neg (by simp [hno])] at htime
    exact ⟨hsame, by simp [htime]⟩
  · cases active with
    | none => exact absurd rfl hsame
    | some b =>
      have hne : l.held ≠ some b := fun h => hsame h.symm
      rw [if_pos (by simpa [transitions] using hne)] at htime
      obtain ⟨now, hnow, hpatch⟩ := htime
      simp [Listener.commit, hheard, hne, hnow, hpatch]

theorem Attentive.started (w : World) (l : Listener) : Attentive w.machine l.clear ⟨w, []⟩ where
  heard := rfl
  reading := rfl
  kept _ := rfl
  stored _ hmem := by cases hmem

theorem Attentive.moved {m' : ScheduledMachine} (hA : Attentive m l cur)
    (hm : m'.spotSchedule = m.spotSchedule) : Attentive m' l cur where
  heard := hA.heard
  reading := hA.reading
  kept hu := hm.trans (hA.kept hu)
  stored patch hmem := by
    rw [← hA.stored patch hmem]
    exact lastKnownSpotActive_congr hm

theorem Listener.hear_of_reports (hq : q.reports = true) (x : Response q) :
    l.hear ⟨q, x⟩ = l := by
  cases q with
  | info _ | patchStatus _ => rfl
  | _ => cases hq

theorem settles_of_reports (hq : q.reports = false) : settles q c = false := by
  cases q with
  | patchStatus p =>
    have hp : p.spotSchedule.isSome = false := hq
    simp [settles, hp]
  | info line =>
    cases line with
    | scheduleEvaluated _ => cases hq
    | _ => rfl
  | _ => rfl

@[simp] theorem Listener.commit_heard : l.commit.heard = l.heard := by
  unfold commit
  split
  · split <;> rfl
  · rfl

@[simp] theorem Listener.commit_reading : l.commit.reading = l.reading := by
  unfold commit
  split
  · split <;> rfl
  · rfl

theorem Attentive.overheard {w : World} (hA : Attentive w.machine l cur) (hq : q.reports = false) :
    Attentive (machineAfter w q c) (l.hear ⟨q, (w.exec q c).1⟩)
      ⟨cur.snapshot, ⟨q, (w.exec q c).1⟩ :: cur.done⟩ where
  heard := by
    change (hearsActive _).or l.heard = List.findSome? hearsActive (_ :: cur.done)
    rw [hA.heard, List.findSome?_cons]
    cases hearsActive ⟨q, (w.exec q c).1⟩ <;> rfl
  reading := by
    change (readsClock _).or l.reading = List.findSome? readsClock (_ :: cur.done)
    rw [hA.reading, List.findSome?_cons]
    cases readsClock ⟨q, (w.exec q c).1⟩ <;> rfl
  kept hu :=
    (spotSchedule_machineAfter hq).trans (hA.kept fun x hx => hu x (List.mem_cons_of_mem _ hx))
  stored patch hmem := by
    rcases List.mem_cons.mp hmem with heq | hmem
    · obtain ⟨rfl, _⟩ := Sigma.mk.inj heq
      cases hq
    · exact (hA.moved (spotSchedule_machineAfter hq)).stored patch hmem

theorem Attentive.patched {w : World} {active : Option Bool} {patch : SpotSchedulePatch}
    (hA : Attentive w.machine l cur) (hu : Unreported cur.done)
    (hactive : patch.active = active.or cur.snapshot.machine.lastKnownSpotActive) {l' : Listener}
    (hheard : l'.heard = l.heard) (hreading : l'.reading = l.reading) :
    Attentive (machineAfter w (.patchStatus { spotSchedule := some patch }) c) l'
      ⟨cur.snapshot, ⟨.patchStatus { spotSchedule := some patch },
        (w.exec (.patchStatus { spotSchedule := some patch }) c).1⟩ :: cur.done⟩ where
  heard := hheard.trans hA.heard
  reading := hreading.trans hA.reading
  kept hu' := by cases hu' _ List.mem_cons_self
  stored patch' hmem := by
    rcases List.mem_cons.mp hmem with heq | hmem
    · obtain ⟨hpatch, hanswer⟩ := Sigma.mk.inj heq
      cases hpatch
      obtain ⟨rfl, _⟩ := writeAnswer_fst_eq_ok (eq_of_heq hanswer).symm
      unfold ScheduledMachine.lastKnownSpotActive
      rw [spotSchedule_mirrored, if_pos (show Answer.ok.applied = true from rfl)]
      change patch.active.or w.machine.lastKnownSpotActive = patch.active
      rw [lastKnownSpotActive_congr (hA.kept hu), hactive]
      cases active <;> simp
    · cases hu _ hmem

theorem Attentive.settled {active : Option Bool} (hA : Attentive m l cur) (hH : Held m l)
    (hs : Stored cur.snapshot.machine cur.done active) :
    l.held = active.or cur.snapshot.machine.lastKnownSpotActive := by
  rw [← hH.active]
  rcases hs with ⟨patch, hpatch, hmem⟩ | ⟨hu, hsame⟩
  · exact (hA.stored patch hmem).trans hpatch
  · rw [hsame]
    exact lastKnownSpotActive_congr (hA.kept hu)

theorem listen_called {w : World} {t : MachineTrace} :
    listen (.called w q c :: t) = if settles q c then ((listen t).hear ⟨q, (w.exec q c).1⟩).commit
      else (listen t).hear ⟨q, (w.exec q c).1⟩ := rfl

theorem evaluatesHeld_of_patch {w : World} {p : StatusPatch} {t : MachineTrace} :
    EvaluatesHeld (.called w (.patchStatus p) c) t :=
  ⟨fun _ _ _ h => by cases h⟩

theorem Mirrored.mirrored {active : Option Bool} {patch : SpotSchedulePatch} (hM : Mirrored v)
    (hcur : v.current = some cur) (hu : Unreported cur.done)
    (hheard : heardActive cur.done = some active)
    (hactive : patch.active = active.or cur.snapshot.machine.lastKnownSpotActive)
    (htime : if transitions active cur.snapshot.machine.lastKnownSpotActive then
      ∃ now, clockReading cur.done = some now ∧ patch.lastTransitionTime = some (.at now)
      else patch.lastTransitionTime = none) :
    Mirrored (v.called machineSystem cur (.patchStatus { spotSchedule := some patch }) c) := by
  have hA := hM.flight cur hcur
  have hkept : v.world.machine.lastKnownSpotActive = cur.snapshot.machine.lastKnownSpotActive :=
    lastKnownSpotActive_congr (hA.kept hu)
  have hlisten : listen (.called v.world (.patchStatus { spotSchedule := some patch }) c ::
      v.trace) = if c.applied then (listen v.trace).commit else listen v.trace := by
    rw [listen_called, Listener.hear_of_reports rfl]
    rfl
  refine ⟨?_, ?_, .cons evaluatesHeld_of_patch hM.evaluated⟩
  · change Held (v.world.exec _ c).2.machine (listen (.called v.world _ c :: v.trace))
    rw [exec_machine, hlisten]
    by_cases happlied : c.applied = true
    · rw [if_pos happlied]
      rw [← hkept] at hactive htime
      rw [← hA.reading] at htime
      obtain ⟨hheld, hsince⟩ := hM.held.patched (hA.heard.trans hheard) hactive htime
      have hspot : (machineAfter v.world (.patchStatus { spotSchedule := some patch }) c).spotSchedule =
          some (patch.apply v.world.machine.spotSchedule) := by
        rw [spotSchedule_mirrored, if_pos happlied]
      constructor
      · unfold ScheduledMachine.lastKnownSpotActive
        rw [hspot]
        exact hheld
      · unfold ScheduledMachine.lastTransitionTime
        rw [hspot]
        exact hsince
    · rw [if_neg happlied]
      refine hM.held.congr ?_ rfl rfl
      rw [spotSchedule_mirrored, if_neg happlied]
  · rintro cur' ⟨⟩
    change Attentive (v.world.exec _ c).2.machine (listen (.called v.world _ c :: v.trace)) _
    rw [exec_machine, hlisten]
    refine hA.patched hu hactive ?_ ?_
    · split <;> simp
    · split <;> simp

theorem Mirrored.settled {active : Option Bool} (hM : Mirrored v) (hcur : v.current = some cur)
    (hheard : heardActive cur.done = some active)
    (hs : Stored cur.snapshot.machine cur.done active) :
    Mirrored (v.called machineSystem cur (.info (.scheduleEvaluated
      ((active.or cur.snapshot.machine.lastKnownSpotActive).getD false))) c) := by
  have hA := hM.flight cur hcur
  have hheld := hA.settled hM.held hs
  have hsame : active.or (listen v.trace).held = (listen v.trace).held := by
    rw [hheld]
    cases active <;> simp
  have hlisten : listen (.called v.world (.info (.scheduleEvaluated
      ((active.or cur.snapshot.machine.lastKnownSpotActive).getD false))) c :: v.trace) =
      listen v.trace := by
    rw [listen_called, Listener.hear_of_reports rfl]
    exact Listener.commit_of_heard (hA.heard.trans hheard) hsame
  refine ⟨?_, ?_, .cons ⟨?_⟩ hM.evaluated⟩
  · change Held v.world.machine (listen (.called v.world _ c :: v.trace))
    rw [hlisten]
    exact hM.held
  · rintro cur' ⟨⟩
    change Attentive v.world.machine (listen (.called v.world _ c :: v.trace)) _
    rw [hlisten]
    refine ⟨hA.heard, hA.reading, fun hu => (by cases hu _ List.mem_cons_self), ?_⟩
    intro patch hmem
    rcases List.mem_cons.mp hmem with heq | hmem
    · cases (Sigma.mk.inj heq).1
    · exact hA.stored patch hmem
  · intro w b c' h
    cases h
    rw [hlisten, hheld]

theorem Mirrored.called (hM : Mirrored v) (hcur : v.current = some cur)
    (hq : Permitted cur.snapshot.machine cur.done q) :
    Mirrored (v.called machineSystem cur q c) := by
  have hA := hM.flight cur hcur
  have hH := hM.held
  cases hreports : q.reports with
  | false =>
    have hlisten : listen (.called v.world q c :: v.trace) =
        (listen v.trace).hear ⟨q, (v.world.exec q c).1⟩ := by
      rw [listen_called, settles_of_reports hreports]
      rfl
    refine ⟨?_, ?_, .cons ⟨fun _ _ _ h => ?_⟩ hM.evaluated⟩
    · change Held (v.world.exec q c).2.machine (listen (.called v.world q c :: v.trace))
      rw [exec_machine, hlisten]
      exact hH.congr (spotSchedule_machineAfter hreports) rfl rfl
    · rintro cur' ⟨⟩
      change Attentive (v.world.exec q c).2.machine (listen (.called v.world q c :: v.trace)) _
      rw [exec_machine, hlisten]
      exact hA.overheard hreports
    · cases h
      cases hreports
  | true =>
    cases warranted_of_reports hq hreports with
    | mirror hu hheard hactive htime => exact hM.mirrored hcur hu hheard hactive htime
    | evaluated hheard hs => exact hM.settled hcur hheard hs
    | _ => cases hreports

theorem mirrored_preserved :
    machineContract.Preserves machineSystem mirrorGuard Mirrored where
  move v w hM hkept := by
    refine ⟨hM.held.congr hkept rfl rfl, fun cur hcur => (hM.flight cur hcur).moved hkept, ?_⟩
    exact .cons ⟨fun _ _ _ h => by cases h⟩ hM.evaluated
  start v hM _ _ := by
    refine ⟨machineContract_binds _, hM.held.congr rfl rfl rfl, ?_, ?_⟩
    · rintro cur ⟨⟩
      exact .started v.world (listen v.trace)
    · exact .cons ⟨fun _ _ _ h => by cases h⟩ hM.evaluated
  call v cur q c hM hcur hq _ := ⟨trivial, hM.called hcur hq⟩
  finish v cur a hM _ _ :=
    ⟨hM.held, fun cur' h => (by cases h), .cons ⟨fun _ _ _ h => by cases h⟩ hM.evaluated⟩
  crash v hM _ :=
    ⟨hM.held, fun cur' h => (by cases h), .cons ⟨fun _ _ _ h => by cases h⟩ hM.evaluated⟩

end Step

/-- From a resource without `status.spotSchedule` on, every evaluation, the stored value and its time
are those of a listener to the provider. -/
theorem holds_last_verdict (w : World) (hw : w.machine.spotSchedule = none)
    (es : List (Event World Answer)) (hes : mirrorGuard.Allows machineSystem (.idle w) es) :
    let c := machineSystem.run (.idle w) es
    Throughout EvaluatesHeld c.trace ∧
      c.world.machine.lastKnownSpotActive = (listen c.trace).held ∧
      c.world.machine.lastTransitionTime = (listen c.trace).since.map .at := by
  have hinit : Mirrored ⟨w, [], none⟩ := by
    refine ⟨⟨?_, ?_⟩, fun cur h => (by cases h), .nil⟩
    · simp [ScheduledMachine.lastKnownSpotActive, hw, listen]
    · simp [ScheduledMachine.lastTransitionTime, hw, listen]
  have hM := mirrored_preserved.run_idle hinit hes
  exact ⟨hM.evaluated, hM.held.active, hM.held.since⟩

section Runs

def mirrorTests : Tests mirrorGuard where
  start _ := true
  call _ _ _ := true
  start_sound _ _ := trivial
  call_sound _ _ _ _ := trivial
  crash _ := true
  crash_sound _ _ := trivial

def silenceSample (w : World) : World := { w with provider := none, clock := 60000000000 }

theorem admits_silenceSample
    (c : Config Request Response World Answer (Except ReconcilerError Action)) :
    mirrorGuard.Admits c (.move (silenceSample c.world)) := rfl

/-- The machine is added, then its provider falls silent. -/
def sampleSilenced : List (Event World Answer) :=
  (reconcileFor 2 ++ reconcileFor 20) ++ .move (silenceSample sampleAdded.world) :: reconcileFor 12

theorem silence_holds_last_verdict :
    let c := machineSystem.run (.idle sampleWorld) sampleSilenced
    (listen c.trace).held = some true ∧ (listen c.trace).since = some 0 ∧
      Throughout EvaluatesHeld c.trace ∧
      c.world.machine.lastKnownSpotActive = (listen c.trace).held ∧
      c.world.machine.lastTransitionTime = (listen c.trace).since.map .at := by
  have hrun : let c := machineSystem.run (.idle sampleWorld) sampleSilenced
      ((listen c.trace).held = some true ∧ (listen c.trace).since = some 0) ∧
        mirrorTests.passAll machineSystem (.idle sampleWorld)
          (reconcileFor 2 ++ reconcileFor 20) = true ∧
        mirrorTests.passAll machineSystem
          (machineSystem.step sampleAdded (.move (silenceSample sampleAdded.world)))
          (reconcileFor 12) = true := by
    decide +kernel
  refine ⟨hrun.1.1, hrun.1.2, holds_last_verdict sampleWorld rfl sampleSilenced ?_⟩
  exact Tests.allows_move (admits_silenceSample sampleAdded) hrun.2

end Runs

end FiveSpot.Machine
