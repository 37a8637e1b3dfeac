import FiveSpot.Effects.Channel
import FiveSpot.Capacity.Reconcile
import FiveSpot.Machine.Reconcile

/-!
# The leader flag

`leader.rs`: a background task follows the channel of the lease manager and keeps the flag that the
reconcilers of its process ask before they do anything. The manager sends an update when the lease is
acquired and when it is lost; when it ends, its end of the channel goes away.
-/

namespace FiveSpot.Leader

set_option autoImplicit false

open Effects

inductive Controller where
  | machine
  | capacity
  deriving DecidableEq

/-- Where the background task is: before `changed`, before `borrow_and_update`, before the store, or
past the loop. -/
inductive Task where
  | waiting
  | woken
  | took (acquired : Bool)
  | ended
  deriving DecidableEq

structure Process where
  channel : Channel Bool
  task : Task
  isLeader : Bool
  /-- What the guards of the reconciles have read, the last one first. -/
  guards : List (Controller × Bool)

inductive Event where
  /-- The manager reports the lease as acquired or lost. -/
  | update (acquired : Bool)
  /-- The manager has ended. -/
  | close
  | background
  /-- A reconcile comes to its guard. -/
  | reconcile (controller : Controller)
  deriving DecidableEq

def backgroundStep (p : Process) : Process :=
  match p.task with
  | .waiting =>
      match p.channel.changed with
      | .pending => p
      | .changed channel => { p with channel, task := .woken }
      | .closed => { p with task := .ended }
  | .woken =>
      let (acquired, channel) := p.channel.borrowAndUpdate
      { p with channel, task := .took acquired }
  | .took acquired => { p with isLeader := acquired, task := .waiting }
  | .ended => p

def step (p : Process) : Event → Process
  | .update acquired => { p with channel := p.channel.send acquired }
  | .close => { p with channel := p.channel.close }
  | .background => backgroundStep p
  | .reconcile controller => { p with guards := (controller, p.isLeader) :: p.guards }

def start : Process := ⟨.init false, .waiting, false, []⟩

def run (es : List Event) : Process := es.foldl step start

/-- The background task has dealt with all that has happened. -/
def Process.Settled (p : Process) : Prop :=
  (p.task = .waiting ∧ p.channel.unseen = false ∧ p.channel.closed = false) ∨ p.task = .ended

instance (p : Process) : Decidable p.Settled :=
  inferInstanceAs (Decidable (_ ∨ _))

structure Announced where
  last : Option Bool
  closed : Bool

def Announced.hear (a : Announced) : Event → Announced
  | .update acquired => if a.closed then a else { a with last := some acquired }
  | .close => { a with closed := true }
  | .background | .reconcile _ => a

def announced (es : List Event) : Announced := es.foldl Announced.hear ⟨none, false⟩

section Guards

/-- With this flag every reconcile of the controller asks for it, awaits a change and does nothing else. -/
def Controller.StandsBy (isLeader : Bool) : Controller → Prop
  | .machine => ∀ settings resource ns, ∃ rest,
      (Machine.reconcileGuarded settings resource ns).run = .call .isLeader rest ∧
        rest isLeader = .pure (.ok .awaitChange)
  | .capacity => ∀ capacity, ∃ rest, (Capacity.reconcile capacity).run = .call .isLeader rest ∧
      rest isLeader = .pure (.ok .awaitChange)

theorem standsBy_iff (controller : Controller) (isLeader : Bool) :
    controller.StandsBy isLeader ↔ isLeader = false := by
  constructor
  · intro h
    cases isLeader with
    | false => rfl
    | true =>
      cases controller with
      | machine =>
        obtain ⟨rest, hrun, hrest⟩ :=
          h Machine.sampleWorld.settings Machine.sampleWorld.machine "default"
        cases hrun
        cases hrest
      | capacity =>
        obtain ⟨rest, hrun, hrest⟩ := h Capacity.sampleWorld.capacity
        cases hrun
        cases hrest
  · rintro rfl
    cases controller with
    | machine => exact fun settings resource ns => ⟨_, rfl, rfl⟩
    | capacity => exact fun capacity => ⟨_, rfl, rfl⟩

end Guards

section Following

/-- What the task has yet to store is the value of the channel, unless a newer one is unseen. -/
def Task.Carries (p : Process) : Task → Prop
  | .waiting => p.channel.unseen = false → p.isLeader = p.channel.value
  | .woken => True
  | .took acquired => p.channel.unseen = false → acquired = p.channel.value
  | .ended => p.channel.closed = true ∧ p.channel.unseen = false ∧ p.isLeader = p.channel.value

/-- The channel has what was announced, and the task is on its way to store it. -/
structure Follows (p : Process) (a : Announced) : Prop where
  value : p.channel.value = a.last.getD false
  closed : p.channel.closed = a.closed
  carries : p.task.Carries p

variable {p : Process} {a : Announced}

theorem follows_start : Follows start ⟨none, false⟩ := ⟨rfl, rfl, fun _ => rfl⟩

theorem Follows.update (h : Follows p a) (acquired : Bool) :
    Follows (step p (.update acquired)) (a.hear (.update acquired)) := by
  change Follows { p with channel := p.channel.send acquired }
    (if a.closed = true then a else { a with last := some acquired })
  cases hopen : p.channel.closed with
  | true =>
    rw [Channel.send_of_closed hopen, if_pos (h.closed.symm.trans hopen)]
    exact h
  | false =>
    rw [Channel.send_of_open hopen, if_neg (by simp [← h.closed, hopen])]
    refine ⟨rfl, h.closed, ?_⟩
    -- the new value is unseen, and an ended task has seen the channel closed
    have hcarries := h.carries
    change p.task.Carries _
    cases htask : p.task with
    | waiting => exact fun hunseen => by cases hunseen
    | woken => trivial
    | took b => exact fun hunseen => by cases hunseen
    | ended =>
      rw [htask] at hcarries
      cases hopen.symm.trans hcarries.1

theorem Follows.close (h : Follows p a) : Follows (step p .close) (a.hear .close) := by
  refine ⟨h.value, rfl, ?_⟩
  have hcarries := h.carries
  change p.task.Carries _
  cases htask : p.task with
  | waiting =>
    rw [htask] at hcarries
    exact hcarries
  | woken => trivial
  | took b =>
    rw [htask] at hcarries
    exact hcarries
  | ended =>
    rw [htask] at hcarries
    exact ⟨rfl, hcarries.2⟩

theorem Follows.background (h : Follows p a) : Follows (step p .background) (a.hear .background) := by
  have hcarries := h.carries
  change Follows (backgroundStep p) a
  unfold backgroundStep
  cases htask : p.task with
  | waiting =>
    rw [htask] at hcarries
    cases hchanged : p.channel.changed with
    | pending => exact h
    | changed channel =>
      obtain ⟨-, rfl⟩ := Channel.changed_eq_changed hchanged
      exact ⟨h.value, h.closed, trivial⟩
    | closed =>
      obtain ⟨hunseen, hclosed⟩ := Channel.changed_eq_closed hchanged
      exact ⟨h.value, h.closed, hclosed, hunseen, hcarries hunseen⟩
  | woken => exact ⟨h.value, h.closed, fun _ => rfl⟩
  | took acquired =>
    rw [htask] at hcarries
    exact ⟨h.value, h.closed, hcarries⟩
  | ended => exact h

theorem Follows.step (h : Follows p a) (e : Event) : Follows (step p e) (a.hear e) := by
  cases e with
  | update acquired => exact h.update acquired
  | close => exact h.close
  | background => exact h.background
  | reconcile controller =>
    refine ⟨h.value, h.closed, ?_⟩
    have hcarries := h.carries
    change p.task.Carries _
    cases htask : p.task <;> rw [htask] at hcarries <;> exact hcarries

theorem follows_run (es : List Event) : Follows (run es) (announced es) := by
  suffices general : ∀ p a, Follows p a → Follows (es.foldl Leader.step p) (es.foldl Announced.hear a) from
    general _ _ follows_start
  induction es with
  | nil => exact fun p a h => h
  | cons e es ih => exact fun p a h => ih _ _ (h.step e)

theorem Follows.isLeader_eq (h : Follows p a) (hsettled : p.Settled) : p.isLeader = a.last.getD false := by
  rw [← h.value]
  have hcarries := h.carries
  rcases hsettled with ⟨htask, hunseen, -⟩ | htask
  · rw [htask] at hcarries
    exact hcarries hunseen
  · rw [htask] at hcarries
    exact hcarries.2.2

end Following

/-- A guard is not passed exactly when the reconcilers of that kind do nothing. Where the background task
has caught up, a reconcile passes its guard only on an open channel whose last update was an acquisition,
exactly when the channel is open or the last update was none: on a closed channel the task ends and
leaves the flag as it is. -/
theorem leader_flag_sound_iff (es : List Event) (hsettled : (run es).Settled) :
    (∀ controller, (run (es ++ [.reconcile controller])).guards.head? = some (controller, false) ↔
      controller.StandsBy (run es).isLeader) ∧
    ((∀ controller, (run (es ++ [.reconcile controller])).guards.head? = some (controller, true) →
      (run es).channel.closed = false ∧ (announced es).last = some true) ↔
    (announced es).closed = false ∨ (announced es).last ≠ some true) := by
  have hflag := (follows_run es).isLeader_eq hsettled
  have hclosed := (follows_run es).closed
  have hguard : ∀ controller, (run (es ++ [.reconcile controller])).guards.head? =
      some (controller, (run es).isLeader) := by
    intro controller
    unfold run
    rw [List.foldl_append]
    rfl
  refine ⟨fun controller => ?_, ?_⟩
  · rw [hguard, standsBy_iff]
    simp
  simp only [hguard, hflag, hclosed, Option.some.injEq, Prod.mk.injEq, true_and]
  constructor
  · intro hsound
    by_cases hlast : (announced es).last = some true
    · exact .inl (hsound .machine (by rw [hlast]; rfl)).1
    · exact .inr hlast
  · intro hcond controller htrue
    have hlast : (announced es).last = some true := by
      cases hl : (announced es).last with
      | none => simp [hl] at htrue
      | some acquired =>
        rw [hl] at htrue
        exact congrArg some htrue
    exact ⟨hcond.resolve_right (not_not.mpr hlast), hlast⟩

/-- The lease is acquired, and a reconcile goes on. -/
theorem acquired_lease_passes_guard :
    (run [.update true, .background, .background, .background]).Settled ∧
      (run [.update true, .background, .background, .background]).isLeader = true ∧
      ∀ controller, (run ([.update true, .background, .background, .background] ++
          [.reconcile controller])).guards.head? = some (controller, true) →
        (run [.update true, .background, .background, .background]).channel.closed = false ∧
          (announced [.update true, .background, .background, .background]).last = some true :=
  ⟨by decide, by decide, (leader_flag_sound_iff [.update true, .background, .background, .background]
    (by decide)).2.mpr (.inl (by decide))⟩

/-- The manager ends while it holds the lease: the task has seen it, and a reconcile still passes. -/
theorem closed_channel_passes_guard :
    let es : List Event := [.update true, .background, .background, .background, .close, .background]
    (run es).Settled ∧ (run es).channel.closed = true ∧
      (run (es ++ [.reconcile .machine])).guards = [(.machine, true)] ∧
      (run (es ++ [.reconcile .capacity])).guards = [(.capacity, true)] := by
  decide

end FiveSpot.Leader
