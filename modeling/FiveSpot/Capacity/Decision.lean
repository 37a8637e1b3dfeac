import FiveSpot.Capacity.Types

/-!
# The capacity decision

`reconcilers/capacity_decision.rs`: what to write and what to report, from one snapshot of inputs.
The decision is then read through three questions: which value is wanted, whether the phase is
active, and which handback deadline is kept.
-/

namespace FiveSpot.Capacity

set_option autoImplicit false

def reasonCapacityActive : String := "ScheduleActive"
def reasonCapacityInactive : String := "ScheduleInactive"
def reasonHandbackWaiting : String := "WaitingForDrain"
def reasonHandbackTimedOut : String := "HandbackTimedOut"
def reasonHandbackNotObserved : String := "NoDrainSignalConfigured"
def reasonTargetNotActuable : String := "TargetNotActuable"
def reasonHostGovernanceConflict : String := "AlsoGovernedByScheduledMachine"

def capacityInactiveValue : Int := 0

structure CapacityDecisionInput where
  enabled : Bool
  killSwitch : Bool
  activeValue : Int
  verdict : SpotScheduleVerdict
  lastKnownActive : Option Bool
  lastWritten : Option Int
  targetResolved : Bool
  hasDrainSignal : Bool
  observedDrained : Option Int
  /-- In nanoseconds. -/
  handbackTimeout : Int
  handbackDeadline : Option Instant
  conflict : Bool
  now : Instant

structure CapacityDecision where
  phase : Phase
  write : Option Int
  handbackDeadline : Option Instant
  reason : String
  message : String
  ready : Bool
  handbackComplete : Bool
  conflict : Bool

def CapacityDecision.hold (phase : Phase) (reason message : String) : CapacityDecision where
  phase := phase
  write := none
  handbackDeadline := none
  reason := reason
  message := message
  ready := false
  handbackComplete := false
  conflict := false

def writeIfChanged (lastWritten : Option Int) (desired : Int) : Option Int :=
  if lastWritten = some desired then none else some desired

def describeDrained : Option Int → String
  | some value => toString value
  | none => "an unreported amount"

def CapacityDecisionInput.shouldBeActive (input : CapacityDecisionInput) : Bool :=
  input.enabled && composeShouldBeActive input.verdict input.lastKnownActive

/-- The part of `decide` after the window has closed: zero is written and the drain awaited. -/
def decideHandback (input : CapacityDecisionInput) : CapacityDecision :=
  let write := writeIfChanged input.lastWritten capacityInactiveValue
  let settledPhase := if input.enabled then Phase.inactive else Phase.disabled
  if !input.hasDrainSignal then
    { phase := settledPhase
      write := write
      handbackDeadline := none
      reason := reasonHandbackNotObserved
      message := "capacity zeroed; no spec.handback.drainedPath configured, so handback is complete"
      ready := false
      handbackComplete := true
      conflict := false }
  else if input.observedDrained = some capacityInactiveValue then
    { phase := settledPhase
      write := write
      handbackDeadline := none
      reason := reasonCapacityInactive
      message := "capacity zeroed and the consumer reports the slice drained"
      ready := false
      handbackComplete := true
      conflict := false }
  else
    let deadline := input.handbackDeadline.getD (input.now + input.handbackTimeout)
    if deadline ≤ input.now then
      { phase := .handbackTimedOut
        write := write
        handbackDeadline := some deadline
        reason := reasonHandbackTimedOut
        message := "handback timeout expired with " ++ describeDrained input.observedDrained ++
          " still in use; holding capacity at " ++ toString capacityInactiveValue ++
          " and not forcing, because a missed handover is recoverable and killed work is not"
        ready := false
        handbackComplete := false
        conflict := false }
    else
      { phase := .handingBack
        write := write
        handbackDeadline := some deadline
        reason := reasonHandbackWaiting
        message := "capacity zeroed; waiting for the consumer to drain (" ++
          describeDrained input.observedDrained ++ " still in use)"
        ready := false
        handbackComplete := false
        conflict := false }

def decide (input : CapacityDecisionInput) : CapacityDecision :=
  if input.conflict then
    { phase := .error
      write := writeIfChanged input.lastWritten capacityInactiveValue
      handbackDeadline := none
      reason := reasonHostGovernanceConflict
      message := "node is also governed by a ScheduledMachine in this namespace; capacity driven to " ++
        toString capacityInactiveValue ++
        " and the active value withheld until the overlap is resolved"
      ready := false
      handbackComplete := false
      conflict := true }
  else if !input.targetResolved then
    .hold .pending reasonTargetNotActuable "spec.target is not actuable; holding without writing"
  else if input.killSwitch then
    { phase := .terminated
      write := writeIfChanged input.lastWritten capacityInactiveValue
      handbackDeadline := none
      reason := reasonCapacityInactive
      message := "spec.killSwitch is set; capacity driven to zero immediately"
      ready := false
      handbackComplete := true
      conflict := false }
  else if input.shouldBeActive then
    { phase := .active
      write := writeIfChanged input.lastWritten input.activeValue
      handbackDeadline := none
      reason := reasonCapacityActive
      message := "schedule is active; capacity held at " ++ toString input.activeValue
      ready := true
      handbackComplete := false
      conflict := false }
  else decideHandback input

namespace CapacityDecisionInput

variable (input : CapacityDecisionInput)

/-- The slice is conceded: nothing overrides an open window. -/
def concedes : Bool :=
  !input.conflict && input.targetResolved && !input.killSwitch && input.shouldBeActive

/-- The value that should be on the owned object, whatever was written before. -/
def wanted : Int := if input.concedes then input.activeValue else capacityInactiveValue

def draining : Bool :=
  !input.conflict && input.targetResolved && !input.killSwitch && !input.shouldBeActive &&
    input.hasDrainSignal && input.observedDrained != some capacityInactiveValue

end CapacityDecisionInput

variable {input : CapacityDecisionInput}

theorem decideHandback_write :
    (decideHandback input).write = writeIfChanged input.lastWritten capacityInactiveValue := by
  unfold decideHandback
  dsimp only
  repeat' split
  all_goals rfl

theorem decideHandback_phase : (decideHandback input).phase ≠ .active := by
  unfold decideHandback
  dsimp only
  repeat' split
  all_goals simp

theorem decideHandback_deadline :
    (decideHandback input).handbackDeadline =
      if input.hasDrainSignal ∧ input.observedDrained ≠ some capacityInactiveValue then
        some (input.handbackDeadline.getD (input.now + input.handbackTimeout))
      else none := by
  unfold decideHandback
  dsimp only
  repeat' split
  all_goals simp_all

/-- A decision writes the wanted value unless it is recorded already; a blocked target only holds. -/
theorem decide_write :
    (decide input).write =
      if input.conflict || input.targetResolved then writeIfChanged input.lastWritten input.wanted
      else none := by
  unfold decide
  split
  · simp_all [CapacityDecisionInput.wanted, CapacityDecisionInput.concedes]
  · split
    · simp_all [CapacityDecision.hold]
    · split
      · simp_all [CapacityDecisionInput.wanted, CapacityDecisionInput.concedes]
      · split
        · simp_all [CapacityDecisionInput.wanted, CapacityDecisionInput.concedes]
        · rw [decideHandback_write]
          simp_all [CapacityDecisionInput.wanted, CapacityDecisionInput.concedes]

theorem decide_phase_active : (decide input).phase = .active ↔ input.concedes = true := by
  unfold decide
  split
  · simp_all [CapacityDecisionInput.concedes]
  · split
    · simp_all [CapacityDecisionInput.concedes, CapacityDecision.hold]
    · split
      · simp_all [CapacityDecisionInput.concedes]
      · split
        · simp_all [CapacityDecisionInput.concedes]
        · simp_all [CapacityDecisionInput.concedes, decideHandback_phase]

/-- A deadline is kept only while a handback is awaited, and a running one is not restarted. -/
theorem decide_deadline :
    (decide input).handbackDeadline =
      if input.draining then
        some (input.handbackDeadline.getD (input.now + input.handbackTimeout))
      else none := by
  unfold decide
  split
  · simp_all [CapacityDecisionInput.draining]
  · split
    · simp_all [CapacityDecisionInput.draining, CapacityDecision.hold]
    · split
      · simp_all [CapacityDecisionInput.draining]
      · split
        · simp_all [CapacityDecisionInput.draining]
        · rw [decideHandback_deadline]
          simp_all [CapacityDecisionInput.draining]

theorem decide_conflict_write (h : input.conflict = true) :
    (decide input).write = writeIfChanged input.lastWritten capacityInactiveValue := by
  rw [decide_write]
  simp [h, CapacityDecisionInput.wanted, CapacityDecisionInput.concedes]

end FiveSpot.Capacity
