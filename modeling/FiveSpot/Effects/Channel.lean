import Mathlib.Tactic.Common

/-!
# Watch channels

A channel that keeps only the newest value, as `tokio::sync::watch` has it, with one receiver. The
receiver waits until there is a value it has not seen; when the sender is gone and nothing is unseen, it
is told so.
-/

namespace FiveSpot.Effects

set_option autoImplicit false

structure Channel (α : Type) where
  value : α
  unseen : Bool
  closed : Bool
  deriving DecidableEq

inductive Changed (α : Type) where
  | pending
  | changed (channel : Channel α)
  | closed

namespace Channel

variable {α : Type}

def init (a : α) : Channel α := ⟨a, false, false⟩

def send (a : α) (ch : Channel α) : Channel α :=
  if ch.closed then ch else { ch with value := a, unseen := true }

def close (ch : Channel α) : Channel α := { ch with closed := true }

/-- `changed`: an unseen value comes before the news that the sender is gone. -/
def changed (ch : Channel α) : Changed α :=
  if ch.unseen then .changed { ch with unseen := false }
  else if ch.closed then .closed
  else .pending

/-- `borrow_and_update`; `borrow` is the field `value`. -/
def borrowAndUpdate (ch : Channel α) : α × Channel α := (ch.value, { ch with unseen := false })

theorem send_of_closed {ch : Channel α} (h : ch.closed = true) (a : α) : ch.send a = ch := by
  rw [send, if_pos h]

theorem send_of_open {ch : Channel α} (h : ch.closed = false) (a : α) :
    ch.send a = { ch with value := a, unseen := true } := by
  rw [send, if_neg (by simp [h])]

theorem changed_eq_changed {ch ch' : Channel α} (h : ch.changed = .changed ch') :
    ch.unseen = true ∧ ch' = { ch with unseen := false } := by
  unfold changed at h
  split at h
  · rename_i hunseen
    cases h
    exact ⟨hunseen, rfl⟩
  · split at h <;> cases h

theorem changed_eq_closed {ch : Channel α} (h : ch.changed = .closed) :
    ch.unseen = false ∧ ch.closed = true := by
  unfold changed at h
  split at h
  · cases h
  · rename_i hunseen
    split at h
    · rename_i hclosed
      exact ⟨by simpa using hunseen, hclosed⟩
    · cases h

end Channel

end FiveSpot.Effects
