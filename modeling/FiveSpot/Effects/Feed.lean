import Mathlib.Data.List.Nodup
import Mathlib.Logic.Function.Basic
import Mathlib.Logic.Relation
import FiveSpot.Effects.Tasks

/-!
# Tasks that feed a channel

Tasks send items through one bounded channel to one receiver. A task is told a list of items and sends
them one by one; while the channel is full it waits. Tasks are started and aborted; an aborted task goes on
to a point of its own and then drops what it has not sent. Of a task that lives nothing is lost, doubled or
put in another order.
-/

namespace FiveSpot.Effects

set_option autoImplicit false

variable {ι : Type}

/-- The channel, what each task has still to send, and what it was told since it was started. -/
structure Feed (ι : Type) where
  capacity : Nat
  live : List Nat
  spawned : Nat
  pending : Nat → List ι
  told : Nat → List (List ι)
  buffer : List (Nat × ι)
  received : List (Nat × ι)
  closed : Bool

namespace Feed

def start (capacity : Nat) : Feed ι := ⟨capacity, [], 0, fun _ => [], fun _ => [], [], [], false⟩

/-- A task that has nothing left to send is told the next items. -/
def tell (f : Feed ι) (task : Nat) (items : List ι) : Feed ι :=
  { f with
    pending := Function.update f.pending task items
    told := Function.update f.told task (f.told task ++ [items]) }

/-- The next item of a task enters the channel if there is room; without a receiver the task gives up
on its items. -/
def send (f : Feed ι) (task : Nat) : Option (Feed ι) :=
  match f.pending task with
  | [] => none
  | item :: items =>
      if f.closed then some { f with pending := Function.update f.pending task [] }
      else if f.buffer.length < f.capacity then
        some { f with
          pending := Function.update f.pending task items
          buffer := f.buffer ++ [(task, item)] }
      else none

def receive (f : Feed ι) : Option (Feed ι) :=
  match f.buffer with
  | [] => none
  | entry :: rest => some { f with buffer := rest, received := f.received ++ [entry] }

def close (f : Feed ι) : Feed ι := { f with closed := true, buffer := [] }

def retask (f : Feed ι) (live : List Nat) (spawned : Nat) : Feed ι := { f with live, spawned }

def cancel (f : Feed ι) (task : Nat) : Feed ι :=
  { f with pending := Function.update f.pending task [] }

/-- The tasks in `live` are old ones or new ones. -/
structure Retasks (f : Feed ι) (live : List Nat) (spawned : Nat) : Prop where
  grown : f.spawned ≤ spawned
  known : ∀ task ∈ live, task ∈ f.live ∨ f.spawned ≤ task ∧ task < spawned

inductive Delivers (task : Nat) : Feed ι → Feed ι → Prop where
  | send {f f' : Feed ι} : f.send task = some f' → Delivers task f f'
  | receive {f f' : Feed ι} : f.receive = some f' → Delivers task f f'

def sent (f : Feed ι) (task : Nat) : List ι :=
  ((f.received ++ f.buffer).filter fun entry => entry.1 == task).map Prod.snd

def due (f : Feed ι) (task : Nat) : List ι := (f.told task).flatten

/-- What is due of a task that lives is sent or still with it; nothing is known of tasks to come. -/
structure Accounted (f : Feed ι) : Prop where
  bounded : ∀ task ∈ f.live, task < f.spawned
  balance : f.closed = false → ∀ task ∈ f.live, f.sent task ++ f.pending task = f.due task
  fresh : ∀ task, f.spawned ≤ task → f.sent task = [] ∧ f.pending task = [] ∧ f.told task = []

variable {f f' : Feed ι} {task task' : Nat}

theorem accounted_start (capacity : Nat) : (start capacity : Feed ι).Accounted where
  bounded task hlive := by cases hlive
  balance _ task hlive := by cases hlive
  fresh task _ := ⟨rfl, rfl, rfl⟩

theorem sent_of_same (hentries : f'.received ++ f'.buffer = f.received ++ f.buffer) :
    f'.sent task = f.sent task := by
  unfold sent
  rw [hentries]

theorem receive_eq_some (h : f.receive = some f') : ∃ entry rest, f.buffer = entry :: rest ∧
    f' = { f with buffer := rest, received := f.received ++ [entry] } := by
  unfold receive at h
  split at h
  · cases h
  · rename_i entry rest hbuffer
    exact ⟨entry, rest, hbuffer, (Option.some.inj h).symm⟩

theorem send_eq_some (h : f.send task = some f') : ∃ item items, f.pending task = item :: items ∧
    (f.closed = true ∧ f' = { f with pending := Function.update f.pending task [] } ∨
      f.closed = false ∧ f.buffer.length < f.capacity ∧
        f' = { f with
          pending := Function.update f.pending task items
          buffer := f.buffer ++ [(task, item)] }) := by
  unfold send at h
  split at h
  · cases h
  · rename_i item items hpending
    refine ⟨item, items, hpending, ?_⟩
    split at h
    · rename_i hclosed
      exact Or.inl ⟨hclosed, (Option.some.inj h).symm⟩
    · rename_i hopen
      split at h
      · rename_i hroom
        exact Or.inr ⟨by simpa using hopen, hroom, (Option.some.inj h).symm⟩
      · cases h

/-- What neither a send nor a receive changes. -/
structure Framed (f f' : Feed ι) : Prop where
  capacity : f'.capacity = f.capacity
  live : f'.live = f.live
  spawned : f'.spawned = f.spawned
  told : f'.told = f.told
  closed : f'.closed = f.closed

theorem framed_of_send (h : f.send task = some f') : f.Framed f' := by
  obtain ⟨_, _, _, ⟨-, rfl⟩ | ⟨-, -, rfl⟩⟩ := send_eq_some h <;> exact ⟨rfl, rfl, rfl, rfl, rfl⟩

theorem framed_of_receive (h : f.receive = some f') : f.Framed f' := by
  obtain ⟨_, _, _, rfl⟩ := receive_eq_some h
  exact ⟨rfl, rfl, rfl, rfl, rfl⟩

theorem told_tell (items : List ι) (task task' : Nat) : (f.tell task items).told task' =
    f.told task' ++ if task' = task then [items] else [] := by
  unfold tell
  by_cases htask : task' = task
  · subst htask
    simp
  · simp [htask]

theorem sent_receive (h : f.receive = some f') (task : Nat) : f'.sent task = f.sent task := by
  obtain ⟨entry, rest, hbuffer, rfl⟩ := receive_eq_some h
  exact sent_of_same (by simp [hbuffer])

theorem sent_sent (f : Feed ι) (task task' : Nat) (item : ι) :
    ({ f with buffer := f.buffer ++ [(task, item)] } : Feed ι).sent task' =
      f.sent task' ++ if task = task' then [item] else [] := by
  unfold sent
  rw [← List.append_assoc, List.filter_append, List.map_append]
  congr 1
  by_cases h : task = task'
  · subst h
    simp
  · simp [h]

theorem Accounted.told (h : f.Accounted) (items : List ι) (hlive : task ∈ f.live)
    (hidle : f.pending task = []) : (f.tell task items).Accounted where
  bounded := h.bounded
  balance hopen task' hlive' := by
    have hbefore := h.balance hopen task' hlive'
    change f.sent task' ++ Function.update f.pending task items task' =
      (Function.update f.told task (f.told task ++ [items]) task').flatten
    by_cases htask : task' = task
    · subst htask
      rw [hidle, List.append_nil] at hbefore
      rw [Function.update_self, Function.update_self, List.flatten_concat, hbefore]
      rfl
    · rw [Function.update_of_ne htask, Function.update_of_ne htask]
      exact hbefore
  fresh task' hfresh := by
    have hne : task' ≠ task := by
      have := h.bounded task hlive
      rintro rfl
      exact absurd hfresh (by simpa [tell] using this)
    obtain ⟨hsent, hpending, htold⟩ := h.fresh task' hfresh
    refine ⟨hsent, ?_, ?_⟩
    · exact (Function.update_of_ne hne _ _).trans hpending
    · exact (Function.update_of_ne hne _ _).trans htold

theorem Accounted.sent (h : f.Accounted) (hsend : f.send task = some f') : f'.Accounted := by
  obtain ⟨item, items, hpending, hsend⟩ := send_eq_some hsend
  have hne : ∀ task', f.spawned ≤ task' → task' ≠ task := by
    rintro task' hfresh rfl
    rw [(h.fresh _ hfresh).2.1] at hpending
    cases hpending
  obtain ⟨hclosed, rfl⟩ | ⟨hopen, -, rfl⟩ := hsend
  · refine ⟨h.bounded, fun hopen => ?_, fun task' hfresh => ?_⟩
    · exact absurd (hclosed.symm.trans hopen) (by simp)
    · obtain ⟨hsent, hpending, htold⟩ := h.fresh task' hfresh
      exact ⟨hsent, (Function.update_of_ne (hne task' hfresh) _ _).trans hpending, htold⟩
  · refine ⟨h.bounded, fun _ task' hlive' => ?_, fun task' hfresh => ?_⟩
    · have hbefore := h.balance hopen task' hlive'
      have hsent := sent_sent f task task' item
      refine Eq.trans (congrArg (· ++ _) hsent) ?_
      by_cases htask : task' = task
      · subst htask
        rw [hpending] at hbefore
        simpa [due] using hbefore
      · simpa [due, htask, Ne.symm htask] using hbefore
    · obtain ⟨hsent, hpending, htold⟩ := h.fresh task' hfresh
      refine ⟨?_, (Function.update_of_ne (hne task' hfresh) _ _).trans hpending, htold⟩
      refine (sent_sent f task task' item).trans ?_
      rw [hsent, if_neg (Ne.symm (hne task' hfresh))]
      rfl

theorem Accounted.received (h : f.Accounted) (hreceive : f.receive = some f') : f'.Accounted := by
  have hsent := sent_receive hreceive
  obtain ⟨entry, rest, hbuffer, rfl⟩ := receive_eq_some hreceive
  refine ⟨h.bounded, fun hopen task hlive => ?_, fun task hfresh => ?_⟩
  · rw [hsent]
    exact h.balance hopen task hlive
  · rw [hsent]
    exact h.fresh task hfresh

theorem Accounted.closed (h : f.Accounted) : f.close.Accounted where
  bounded := h.bounded
  balance hopen := by cases hopen
  fresh task hfresh := by
    obtain ⟨hsent, hpending, htold⟩ := h.fresh task hfresh
    refine ⟨?_, hpending, htold⟩
    unfold Feed.sent at hsent ⊢
    rw [List.map_eq_nil_iff, List.filter_append, List.append_eq_nil_iff] at hsent
    simpa [close] using hsent.1

theorem Accounted.retasked (h : f.Accounted) {live : List Nat} {spawned : Nat}
    (hretasks : f.Retasks live spawned) : (f.retask live spawned).Accounted where
  bounded task hlive := by
    rcases hretasks.known task hlive with hold | ⟨-, hnew⟩
    · exact Nat.lt_of_lt_of_le (h.bounded task hold) hretasks.grown
    · exact hnew
  balance hopen task hlive := by
    rcases hretasks.known task hlive with hold | ⟨hnew, -⟩
    · exact h.balance hopen task hold
    · obtain ⟨hsent, hpending, htold⟩ := h.fresh task hnew
      change f.sent task ++ f.pending task = (f.told task).flatten
      rw [hsent, hpending, htold]
      rfl
  fresh task hfresh := h.fresh task (Nat.le_trans hretasks.grown hfresh)

theorem Accounted.cancelled (h : f.Accounted) (hdead : task ∉ f.live) : (f.cancel task).Accounted where
  bounded := h.bounded
  balance hopen task' hlive := by
    have hne : task' ≠ task := fun htask => hdead (htask ▸ hlive)
    change f.sent task' ++ Function.update f.pending task [] task' = f.due task'
    rw [Function.update_of_ne hne]
    exact h.balance hopen task' hlive
  fresh task' hfresh := by
    obtain ⟨hsent, hpending, htold⟩ := h.fresh task' hfresh
    refine ⟨hsent, ?_, htold⟩
    by_cases htask : task' = task
    · exact htask ▸ Function.update_self ..
    · exact (Function.update_of_ne htask _ _).trans hpending

section Delivery

theorem Delivers.framed (h : Delivers task f f') : f.Framed f' := by
  cases h with
  | send hsend => exact framed_of_send hsend
  | receive hreceive => exact framed_of_receive hreceive

theorem Accounted.delivered (h : f.Accounted) (hsteps : Relation.ReflTransGen (Delivers task) f f') :
    f'.Accounted := by
  induction hsteps with
  | refl => exact h
  | tail _ hstep ih =>
    cases hstep with
    | send hsend => exact ih.sent hsend
    | receive hreceive => exact ih.received hreceive

theorem framed_of_delivers (h : Relation.ReflTransGen (Delivers task) f f') : f.Framed f' := by
  induction h with
  | refl => exact ⟨rfl, rfl, rfl, rfl, rfl⟩
  | tail _ hstep ih =>
    have hframed := hstep.framed
    exact ⟨hframed.capacity.trans ih.capacity, hframed.live.trans ih.live,
      hframed.spawned.trans ih.spawned, hframed.told.trans ih.told, hframed.closed.trans ih.closed⟩

theorem exists_emptied (task : Nat) (f : Feed ι) : ∃ f', Relation.ReflTransGen (Delivers task) f f' ∧
    f'.buffer = [] ∧ f'.pending = f.pending := by
  generalize hbuffer : f.buffer = buffer
  induction buffer generalizing f with
  | nil => exact ⟨f, .refl, hbuffer, rfl⟩
  | cons entry rest ih =>
    have hfirst : f.receive = some { f with buffer := rest, received := f.received ++ [entry] } := by
      simp [receive, hbuffer]
    obtain ⟨f', hf', hempty, hpending⟩ :=
      ih { f with buffer := rest, received := f.received ++ [entry] } rfl
    exact ⟨f', .head (.receive hfirst) hf', hempty, hpending⟩

/-- As long as there is a receiver and room for one item, sends of a task and receives bring over all that
it has to send. -/
theorem exists_delivered (task : Nat) (hopen : f.closed = false) (hcapacity : 0 < f.capacity) :
    ∃ f', Relation.ReflTransGen (Delivers task) f f' ∧ f'.buffer = [] ∧ f'.pending task = [] := by
  generalize hpending : f.pending task = pending
  induction pending generalizing f with
  | nil =>
    obtain ⟨f', hf', hempty, hsame⟩ := exists_emptied task f
    exact ⟨f', hf', hempty, hsame ▸ hpending⟩
  | cons item items ih =>
    obtain ⟨f₁, hf₁, hempty, hsame⟩ := exists_emptied task f
    have hframed := framed_of_delivers hf₁
    have hroom : f₁.buffer.length < f₁.capacity := by
      rw [hempty, hframed.capacity]
      exact hcapacity
    have hsend : f₁.send task = some { f₁ with
        pending := Function.update f₁.pending task items
        buffer := f₁.buffer ++ [(task, item)] } := by
      simp [send, hsame, hpending, hframed.closed, hopen, hroom]
    have hsent := framed_of_send hsend
    obtain ⟨f', hf', hrest⟩ := ih ((hsent.closed.trans hframed.closed).trans hopen)
      ((hsent.capacity.trans hframed.capacity) ▸ hcapacity) (Function.update_self ..)
    exact ⟨f', hf₁.trans (.head (.send hsend) hf'), hrest⟩

def receivedFrom (f : Feed ι) (task : Nat) : List ι :=
  (f.received.filter fun entry => entry.1 == task).map Prod.snd

/-- Of a task that lives, the receiver can be brought all that is due, once each and in order. -/
theorem Accounted.exists_received (h : f.Accounted) (hopen : f.closed = false)
    (hcapacity : 0 < f.capacity) (hlive : task ∈ f.live) :
    ∃ f', Relation.ReflTransGen (Delivers task) f f' ∧ f'.receivedFrom task = f.due task := by
  obtain ⟨f', hf', hempty, hpending⟩ := exists_delivered task hopen hcapacity
  refine ⟨f', hf', ?_⟩
  have hframed := framed_of_delivers hf'
  have hbalance := (h.delivered hf').balance (hframed.closed.trans hopen) task (hframed.live ▸ hlive)
  rw [hpending, List.append_nil] at hbalance
  have hdue : f'.due task = f.due task := by
    unfold due
    rw [hframed.told]
  rw [← hdue, ← hbalance, Feed.sent, hempty, List.append_nil]
  rfl

theorem count_due [DecidableEq ι] (f : Feed ι) (task : Nat) (item : ι)
    (hnodup : ∀ items ∈ f.told task, items.Nodup) :
    (f.due task).count item = (f.told task).countP fun items => item ∈ items := by
  unfold due
  generalize f.told task = lists at hnodup
  induction lists with
  | nil => rfl
  | cons items lists ih =>
    have hitems := hnodup items List.mem_cons_self
    rw [List.flatten_cons, List.count_append, List.countP_cons,
      ih fun items' hitems' => hnodup items' (List.mem_cons_of_mem _ hitems'), Nat.add_comm]
    congr 1
    by_cases hitem : item ∈ items
    · simp [hitem, List.count_eq_one_of_mem hitems hitem]
    · simp [hitem, List.count_eq_zero_of_not_mem hitem]

end Delivery

end Feed

structure Staff (α ι : Type) [DecidableEq α] where
  tasks : Tasks α
  feed : Feed ι

namespace Staff

variable {α : Type} [DecidableEq α]

def start (capacity : Nat) : Staff α ι := ⟨.empty, .start capacity⟩

def ids (tasks : Tasks α) : List Nat := tasks.running.map Prod.fst

def change (s : Staff α ι) (tasks : Tasks α) : Staff α ι :=
  ⟨tasks, s.feed.retask (ids tasks) tasks.spawned⟩

def tell (s : Staff α ι) (task : Nat) (items : List ι) : Staff α ι :=
  { s with feed := s.feed.tell task items }

/-- What tasks and channel do by themselves. -/
inductive Carries : Staff α ι → Staff α ι → Prop
  | send {s : Staff α ι} {task : Nat} {feed : Feed ι} :
      s.feed.send task = some feed → Carries s { s with feed }
  | receive {s : Staff α ι} {feed : Feed ι} : s.feed.receive = some feed → Carries s { s with feed }
  | stop {s : Staff α ι} {task : Nat} :
      task ∉ ids s.tasks → Carries s { s with feed := s.feed.cancel task }
  | shutdown (s : Staff α ι) : Carries s { s with feed := s.feed.close }

inductive Step : Staff α ι → Staff α ι → Prop
  | change {s : Staff α ι} {tasks : Tasks α} : s.tasks.Follows tasks → Step s (s.change tasks)
  | tell {s : Staff α ι} {task : Nat} {key : α} (items : List ι) : (task, key) ∈ s.tasks.running →
      s.feed.pending task = [] → Step s (s.tell task items)
  | carry {s s' : Staff α ι} : s.Carries s' → Step s s'

structure Sound (capacity : Nat) (s : Staff α ι) : Prop where
  capacity : s.feed.capacity = capacity
  live : s.feed.live = ids s.tasks
  spawned : s.feed.spawned = s.tasks.spawned
  accounted : s.feed.Accounted

variable {s s' : Staff α ι} {capacity task : Nat} {key : α} {tasks : Tasks α}

theorem mem_ids : task ∈ ids tasks ↔ ∃ key, (task, key) ∈ tasks.running := by
  simp [ids]

theorem Sound.mem_live (h : s.Sound capacity) (hrun : (task, key) ∈ s.tasks.running) :
    task ∈ s.feed.live :=
  h.live ▸ mem_ids.mpr ⟨key, hrun⟩

theorem Sound.retasks (h : s.Sound capacity) (hfollows : s.tasks.Follows tasks) :
    s.feed.Retasks (ids tasks) tasks.spawned := by
  refine ⟨h.spawned ▸ hfollows.grown, fun task htask => ?_⟩
  obtain ⟨key, hrun⟩ := mem_ids.mp htask
  rw [h.live, h.spawned]
  rcases hfollows.known task key ((Tasks.held _ _ _).mp hrun) with hold | hnew
  · exact .inl (mem_ids.mpr ⟨key, (Tasks.held _ _ _).mpr hold⟩)
  · exact .inr ⟨hnew, Tasks.fresh _ _ hrun⟩

theorem Sound.framed (h : s.Sound capacity) {feed : Feed ι} (hframed : s.feed.Framed feed)
    (haccounted : feed.Accounted) : ({ s with feed } : Staff α ι).Sound capacity :=
  ⟨hframed.capacity.trans h.capacity, hframed.live.trans h.live, hframed.spawned.trans h.spawned,
    haccounted⟩

theorem Sound.step (h : s.Sound capacity) (hstep : Step s s') : s'.Sound capacity := by
  cases hstep with
  | change hfollows => exact ⟨h.capacity, rfl, rfl, h.accounted.retasked (h.retasks hfollows)⟩
  | tell items hrun hidle =>
    exact ⟨h.capacity, h.live, h.spawned, h.accounted.told items (h.mem_live hrun) hidle⟩
  | carry hcarries =>
    cases hcarries with
    | send hsend => exact h.framed (Feed.framed_of_send hsend) (h.accounted.sent hsend)
    | receive hreceive =>
      exact h.framed (Feed.framed_of_receive hreceive) (h.accounted.received hreceive)
    | stop hdead =>
      exact ⟨h.capacity, h.live, h.spawned, h.accounted.cancelled (h.live ▸ hdead)⟩
    | shutdown => exact ⟨h.capacity, h.live, h.spawned, h.accounted.closed⟩

theorem sound_of_run (hrun : Relation.ReflTransGen Step (start capacity) s) : s.Sound capacity := by
  induction hrun with
  | refl => exact ⟨rfl, rfl, rfl, Feed.accounted_start capacity⟩
  | tail _ hstep ih => exact ih.step hstep

theorem Carries.told_eq (h : s.Carries s') : s'.feed.told = s.feed.told := by
  cases h with
  | send hsend => exact (Feed.framed_of_send hsend).told
  | receive hreceive => exact (Feed.framed_of_receive hreceive).told
  | stop | shutdown => rfl

theorem Carries.tasks_eq (h : s.Carries s') : s'.tasks = s.tasks := by
  cases h <;> rfl

end Staff

end FiveSpot.Effects
