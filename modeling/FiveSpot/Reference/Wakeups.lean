import FiveSpot.Effects.Feed
import FiveSpot.Reference.Watchers

/-!
# From an event to its owners

`run_referenced_watcher` maps every event of its kind to the owners that reference the object and sends
them, one by one, into the channel of the controller. The owners change meanwhile, watchers are started
and aborted, and the channel is bounded. As long as its kind is referenced a watcher goes on, and each of
its events wakes each owner found at it once.
-/

namespace FiveSpot.Reference

set_option autoImplicit false

open Effects

variable {Owner Obj : Type} [DecidableEq Owner]

structure Referenced where
  ns : Option String
  name : Option String

/-- `emit_refs_for_object`, up to the order: an object without a namespace or a name is ignored. -/
def emitRefsForObject (index : ReverseIndex Owner) (gvk : GroupVersionKind) (object : Referenced) :
    Finset Owner :=
  match object.ns, object.name with
  | some ns, some name => index.lookup ⟨gvk, ns, name⟩
  | _, _ => ∅

/-- What one event of the watch is mapped to; the bookkeeping of a listing and errors map to nothing. -/
def ownersOfEvent (index : ReverseIndex Owner) (gvk : GroupVersionKind) :
    Except String (WatchEvent Referenced) → Finset Owner
  | .ok (.apply object) | .ok (.initApply object) | .ok (.delete object) =>
      emitRefsForObject index gvk object
  | .ok .init | .ok .initDone | .error _ => ∅

structure Watching (Owner : Type) [DecidableEq Owner] where
  manager : DynamicRefWatchManager Owner
  staff : Staff GroupVersionKind Owner

namespace Watching

def start (capacity : Nat) : Watching Owner := ⟨.new, .start capacity⟩

/-- The reflector over the owners makes a call and `sync_watchers` goes through the kinds. -/
def called (E : DynamicRefWatchManager.Edge Owner Obj) (s : Watching Owner) (call : Call Obj)
    (desired : List GroupVersionKind) : Watching Owner where
  manager := call.perform E s.manager
  staff := s.staff.change (s.staff.tasks.sync desired)

/-- A watcher that has sent all owners of the last event takes the next. -/
structure Handles (s : Watching Owner) (task : Nat) (gvk : GroupVersionKind)
    (event : Except String (WatchEvent Referenced)) (found : List Owner) : Prop where
  runs : (task, gvk) ∈ s.staff.tasks.running
  idle : s.staff.feed.pending task = []
  found : Enumerates found (ownersOfEvent s.manager.index gvk event)

def handled (s : Watching Owner) (task : Nat) (found : List Owner) : Watching Owner :=
  { s with staff := s.staff.tell task found }

inductive Step (E : DynamicRefWatchManager.Edge Owner Obj) : Watching Owner → Watching Owner → Prop
  | call {s : Watching Owner} (call : Call Obj) {desired : List GroupVersionKind} :
      Enumerates desired (call.perform E s.manager).index.referencedGvks →
      Step E s (s.called E call desired)
  | event {s : Watching Owner} {task : Nat} {gvk : GroupVersionKind}
      {event : Except String (WatchEvent Referenced)} {found : List Owner} :
      s.Handles task gvk event found → Step E s (s.handled task found)
  | carry {s : Watching Owner} {staff : Staff GroupVersionKind Owner} :
      s.staff.Carries staff → Step E s { s with staff }

def Nodups (s : Watching Owner) : Prop := ∀ task, ∀ found ∈ s.staff.feed.told task, found.Nodup

/-- How many events of a watcher so far concerned an owner. -/
def wakes (s : Watching Owner) (task : Nat) (owner : Owner) : Nat :=
  (s.staff.feed.told task).countP fun found => owner ∈ found

variable {E : DynamicRefWatchManager.Edge Owner Obj} {s s' : Watching Owner} {task : Nat}
  {gvk : GroupVersionKind}

theorem staff_step (hstep : Step E s s') : s.staff.Step s'.staff := by
  cases hstep with
  | call => exact .change (Tasks.follows_sync _)
  | event hhandles => exact .tell _ hhandles.runs hhandles.idle
  | carry hcarries => exact .carry hcarries

theorem nodups_of_run {capacity : Nat} (hrun : Relation.ReflTransGen (Step E) (start capacity) s) :
    s.Nodups := by
  induction hrun with
  | refl => exact fun task found hfound => by cases hfound
  | @tail s s' _ hstep ih =>
    cases hstep with
    | call => exact ih
    | @event task gvk event found hhandles =>
      intro task' list hlist
      change list ∈ (s.staff.feed.tell task found).told task' at hlist
      rw [Feed.told_tell] at hlist
      rcases List.mem_append.mp hlist with hold | hnew
      · exact ih task' list hold
      · split at hnew
        · rw [List.mem_singleton.mp hnew]
          exact hhandles.found.1
        · cases hnew
    | carry hcarries => exact fun task' => hcarries.told_eq ▸ ih task'

def StepUnder (E : DynamicRefWatchManager.Edge Owner Obj) (gvk : GroupVersionKind)
    (s s' : Watching Owner) : Prop :=
  Step E s s' ∧ gvk ∈ s'.manager.index.referencedGvks

/-- What stays with a watcher over steps under which its kind is referenced. -/
structure Stays (task : Nat) (gvk : GroupVersionKind) (s s' : Watching Owner) : Prop where
  runs : (task, gvk) ∈ s'.staff.tasks.running
  told : s.staff.feed.told task <+: s'.staff.feed.told task

theorem told_step (hstep : Step E s s') (task : Nat) :
    s.staff.feed.told task <+: s'.staff.feed.told task := by
  cases hstep with
  | call => exact List.prefix_refl _
  | event =>
    change _ <+: (s.staff.feed.tell _ _).told task
    rw [Feed.told_tell]
    exact List.prefix_append _ _
  | carry hcarries => rw [hcarries.told_eq]

theorem runs_step (hstep : StepUnder E gvk s s') (hrun : (task, gvk) ∈ s.staff.tasks.running) :
    (task, gvk) ∈ s'.staff.tasks.running := by
  obtain ⟨hstep, hreferenced⟩ := hstep
  cases hstep with
  | call call hdesired => exact Tasks.running_sync_of_mem hrun ((hdesired.2 gvk).mpr hreferenced)
  | event => exact hrun
  | carry hcarries => exact hcarries.tasks_eq ▸ hrun

/-- A watcher is not aborted or replaced while its kind is referenced. -/
theorem stays_of_run (hsteps : Relation.ReflTransGen (StepUnder E gvk) s s')
    (hrun : (task, gvk) ∈ s.staff.tasks.running) : Stays task gvk s s' := by
  induction hsteps with
  | refl => exact ⟨hrun, List.prefix_refl _⟩
  | tail _ hstep ih => exact ⟨runs_step hstep ih.runs, ih.told.trans (told_step hstep.1 task)⟩

theorem wakes_handled (task : Nat) {owner : Owner} {found : List Owner} (howner : owner ∈ found) :
    (s.handled task found).wakes task owner = s.wakes task owner + 1 := by
  unfold wakes handled Staff.tell
  rw [Feed.told_tell, if_pos rfl, List.countP_append]
  simp [howner]

theorem Stays.wakes_le (h : Stays task gvk s s') (owner : Owner) :
    s.wakes task owner ≤ s'.wakes task owner :=
  h.told.sublist.countP_le

/--
A watcher handles an event, and its kind stays referenced while the rest of the system takes any steps.
Then sends of the watcher and receives are enough for the controller to have received each owner exactly as
often as events of this watcher concerned it, the event in question among them.
-/
theorem wakeups_reach_controller (E : DynamicRefWatchManager.Edge Owner Obj) (capacity : Nat)
    (hcapacity : 0 < capacity) (s s' : Watching Owner)
    (hreached : Relation.ReflTransGen (Step E) (start capacity) s) (task : Nat)
    (gvk : GroupVersionKind) (event : Except String (WatchEvent Referenced)) (found : List Owner)
    (hhandles : s.Handles task gvk event found)
    (hlater : Relation.ReflTransGen (StepUnder E gvk) (s.handled task found) s')
    (hopen : s'.staff.feed.closed = false) :
    (∀ owner ∈ ownersOfEvent s.manager.index gvk event,
      s.wakes task owner < s'.wakes task owner) ∧
    ∃ feed, Relation.ReflTransGen (Feed.Delivers task) s'.staff.feed feed ∧
      feed.receivedFrom task = s'.staff.feed.due task ∧
      ∀ owner, (feed.receivedFrom task).count owner = s'.wakes task owner := by
  have hstays := stays_of_run hlater hhandles.runs
  have hrun : Relation.ReflTransGen (Step E) (start capacity) s' :=
    (hreached.tail (.event hhandles)).trans (Relation.ReflTransGen.mono (fun _ _ h => h.1) _ _ hlater)
  have hsound : s'.staff.Sound capacity :=
    Staff.sound_of_run (hrun.lift Watching.staff fun _ _ => staff_step)
  obtain ⟨feed, hdelivered, hreceived⟩ := hsound.accounted.exists_received hopen
    (hsound.capacity ▸ hcapacity) (hsound.mem_live hstays.runs)
  refine ⟨fun owner howner => ?_, feed, hdelivered, hreceived, fun owner => ?_⟩
  · have hwakes := wakes_handled (s := s) task ((hhandles.found.2 owner).mpr howner)
    have hle := hstays.wakes_le owner
    omega
  · rw [hreceived]
    exact Feed.count_due _ task owner (nodups_of_run hrun task)

section Sample

def spotScheduleEventChannelCap : Nat := 1024

def sampleWatching : Watching ObjectRef :=
  (start spotScheduleEventChannelCap).called spotScheduleEdge (.observe Machine.sampleWorld.machine)
    [sampleKind]

/-- The schedule that the sample's machine references changes. -/
theorem sampleWatching_wakes_machine :
    ∃ feed, Relation.ReflTransGen (Feed.Delivers 0) (sampleWatching.handled 0 [sampleRef]).staff.feed feed ∧
      feed.receivedFrom 0 = [sampleRef] := by
  have hcall : Step spotScheduleEdge (start spotScheduleEventChannelCap) sampleWatching :=
    .call _ (enumerates_of_eq (List.nodup_singleton _) (by decide +kernel))
  have hfound : ownersOfEvent sampleWatching.manager.index sampleKind
      (.ok (.apply ⟨some "default", some "office-hours"⟩)) = {sampleRef} := by
    decide +kernel
  obtain ⟨-, feed, hsteps, hreceived, -⟩ := wakeups_reach_controller spotScheduleEdge
    spotScheduleEventChannelCap (by decide) sampleWatching _ (.single hcall) 0 sampleKind
    (.ok (.apply ⟨some "default", some "office-hours"⟩)) [sampleRef]
    ⟨by decide, rfl, List.nodup_singleton _, fun owner => by rw [hfound]; simp⟩ .refl rfl
  exact ⟨feed, hsteps, hreceived⟩

end Sample

end Watching

end FiveSpot.Reference
