import FiveSpot.Child.Cache
import FiveSpot.Effects.Feed
import FiveSpot.Machine.Mapping

/-!
# Node events of child clusters

`ChildNodeWatchManager` runs a Node watcher for every client in the cache. A watcher maps each event of a Node,
with the Machines its reflector has at that moment, to the owners of the Machines on the Node.
-/

namespace FiveSpot.Child

set_option autoImplicit false

open Effects
open Machine (DynamicObject KubeClient OwnedMachine nodeToScheduledMachinesViaMachine)
open Reference (ObjectRef)

abbrev NodeEvent := Except String (WatchEvent (Option String))

/-- The Node an event is about; the bookkeeping of a listing and errors are about none. -/
def NodeEvent.node? : NodeEvent → Option (Option String)
  | .ok (.apply node) | .ok (.initApply node) | .ok (.delete node) => some node
  | .ok .init | .ok .initDone | .error _ => none

/-- `run_node_watcher` and `emit_refs_for_node`, for one event. -/
def emitRefsForEvent (machines : List DynamicObject) (event : NodeEvent) : List ObjectRef :=
  match NodeEvent.node? event with
  | some node => nodeToScheduledMachinesViaMachine node machines
  | none => []

/-- The watchers, the store of the Machine reflector, and the events each watcher has handled. -/
structure NodeWatching where
  staff : Staff CacheKey ObjectRef
  machines : List DynamicObject
  handled : Nat → List (NodeEvent × List DynamicObject)

namespace NodeWatching

def childNodeEventChannelCap : Nat := 1024

def start : NodeWatching := ⟨.start childNodeEventChannelCap, [], fun _ => []⟩

def aborted (tasks : Tasks CacheKey) (key : CacheKey) : Tasks CacheKey :=
  match hid : tasks.handles.lookup key with
  | some id => tasks.stop key id hid
  | none => tasks

def onChildEvicted (tasks : Tasks CacheKey) (key : CacheKey) : Tasks CacheKey := aborted tasks key

def onChildResolved (tasks : Tasks CacheKey) (key : CacheKey) : Tasks CacheKey :=
  (aborted tasks key).ensure key

def hooked (s : NodeWatching) (tasks : Tasks CacheKey) : NodeWatching :=
  { s with staff := s.staff.change tasks }

def takes (s : NodeWatching) (task : Nat) (event : NodeEvent) : NodeWatching :=
  { s with
    staff := s.staff.tell task (emitRefsForEvent s.machines event)
    handled := Function.update s.handled task (s.handled task ++ [(event, s.machines)]) }

inductive Step : NodeWatching → NodeWatching → Prop
  | resolved (s : NodeWatching) (key : CacheKey) :
      Step s (s.hooked (onChildResolved s.staff.tasks key))
  | evicted (s : NodeWatching) (key : CacheKey) :
      Step s (s.hooked (onChildEvicted s.staff.tasks key))
  | reflected (s : NodeWatching) (machines : List DynamicObject) : Step s { s with machines }
  | event {s : NodeWatching} {task : Nat} {key : CacheKey} (event : NodeEvent) :
      (task, key) ∈ s.staff.tasks.running → s.staff.feed.pending task = [] →
      Step s (s.takes task event)
  | carry {s : NodeWatching} {staff : Staff CacheKey ObjectRef} :
      s.staff.Carries staff → Step s { s with staff }

/-- The channel is in step with the tasks, and a watcher was told what its events are mapped to. -/
structure Sound (s : NodeWatching) : Prop where
  staff : s.staff.Sound childNodeEventChannelCap
  told : ∀ task, s.staff.feed.told task =
    (s.handled task).map fun entry => emitRefsForEvent entry.2 entry.1

variable {s s' : NodeWatching} {task : Nat} {key : CacheKey} {tasks : Tasks CacheKey}

theorem follows_aborted : tasks.Follows (aborted tasks key) := by
  unfold aborted
  split
  · exact Tasks.follows_stop _
  · exact .refl tasks

theorem Sound.step (h : s.Sound) (hstep : Step s s') : s'.Sound := by
  cases hstep with
  | resolved =>
    exact ⟨h.staff.step (.change (follows_aborted.trans Tasks.follows_ensure)), h.told⟩
  | evicted => exact ⟨h.staff.step (.change follows_aborted), h.told⟩
  | reflected => exact ⟨h.staff, h.told⟩
  | @event task key event hrun hidle =>
    refine ⟨h.staff.step (.tell _ hrun hidle), fun task' => ?_⟩
    change (s.staff.feed.tell task _).told task' = _
    rw [Feed.told_tell, h.told, takes]
    by_cases htask : task' = task
    · subst htask
      simp
    · simp [htask]
  | carry hcarries => exact ⟨h.staff.step (.carry hcarries), fun task => hcarries.told_eq ▸ h.told task⟩

theorem sound_of_run (hrun : Relation.ReflTransGen Step start s) : s.Sound := by
  induction hrun with
  | refl => exact ⟨Staff.sound_of_run .refl, fun _ => rfl⟩
  | tail _ hstep ih => exact ih.step hstep

theorem Sound.due_eq (h : s.Sound) (task : Nat) :
    s.staff.feed.due task = (s.handled task).flatMap fun entry => emitRefsForEvent entry.2 entry.1 := by
  rw [Feed.due, h.told, List.flatMap]

end NodeWatching

theorem ref_mem_emitRefsForEvent {event : NodeEvent} {node : Option String} {machines : List DynamicObject}
    {kube : KubeClient} {made : OwnedMachine} {object : DynamicObject}
    (hevent : NodeEvent.node? event = some node) (hobject : made.object? kube = some object)
    (hstored : object ∈ machines) (hnode : made.NamesNode node) :
    made.ref ∈ emitRefsForEvent machines event := by
  obtain ⟨name, rfl, hname, hstatus⟩ := hnode
  obtain ⟨object', hobject', hlabelled, hnodeRef⟩ := made.exists_object kube
  obtain rfl : object' = object := Option.some.inj (hobject'.symm.trans hobject)
  have hread : object'.nodeRefName = some name := hnodeRef.trans hstatus
  simp only [emitRefsForEvent, hevent, nodeToScheduledMachinesViaMachine]
  rw [if_neg (by simpa using hname), List.mem_filterMap]
  exact ⟨object', hstored, by simp [hread, hname, hlabelled]⟩

/--
Whatever hooks, listings, events and shut-down of other watchers came before, sends of a watcher in the table
and receives are enough for the controller to have received, in order and once each, what every event of
the watcher is mapped to. The owner of a Machine that was in the store at an event of its Node is among them.
-/
theorem node_events_reach_owners (kube : KubeClient) (s : NodeWatching)
    (hrun : Relation.ReflTransGen NodeWatching.Step .start s) (task : Nat) (key : CacheKey)
    (hwatcher : (task, key) ∈ s.staff.tasks.running) (hopen : s.staff.feed.closed = false) :
    ∃ feed, Relation.ReflTransGen (Feed.Delivers task) s.staff.feed feed ∧
      feed.receivedFrom task =
        (s.handled task).flatMap (fun entry => emitRefsForEvent entry.2 entry.1) ∧
      ∀ entry ∈ s.handled task, ∀ (node : Option String) (made : OwnedMachine) (object : DynamicObject),
        NodeEvent.node? entry.1 = some node → made.object? kube = some object → object ∈ entry.2 →
          made.NamesNode node → made.ref ∈ feed.receivedFrom task := by
  have hsound := NodeWatching.sound_of_run hrun
  have hroom : 0 < s.staff.feed.capacity := hsound.staff.capacity ▸ by decide
  obtain ⟨feed, hsteps, hreceived⟩ :=
    hsound.staff.accounted.exists_received hopen hroom (hsound.staff.mem_live hwatcher)
  rw [hsound.due_eq] at hreceived
  refine ⟨feed, hsteps, hreceived, fun entry hentry node made object hnode hobject hstored hnames => ?_⟩
  rw [hreceived]
  exact List.mem_flatMap.mpr ⟨entry, hentry, ref_mem_emitRefsForEvent hnode hobject hstored hnames⟩

section Sample

open NodeWatching

def sampleChild : CacheKey := ⟨"default", "prod-kubeconfig"⟩

def sampleNodeWatching (machines : List DynamicObject) : NodeWatching :=
  ({ start.hooked (onChildResolved start.staff.tasks sampleChild) with machines } : NodeWatching).takes 0
    (.ok (.apply (some "node-1")))

theorem sampleNodeWatching_reaches_owner : ∃ machines feed,
    Relation.ReflTransGen (Feed.Delivers 0) (sampleNodeWatching machines).staff.feed feed ∧
      Machine.sampleOwnedMachine.ref ∈ feed.receivedFrom 0 := by
  obtain ⟨object, hobject, -⟩ := Machine.sampleOwnedMachine.exists_object Machine.sampleKube
  have hwatcher : (0, sampleChild) ∈ (onChildResolved start.staff.tasks sampleChild).running := by decide
  have hrun : Relation.ReflTransGen NodeWatching.Step .start (sampleNodeWatching [object]) :=
    ((Relation.ReflTransGen.single (.resolved start sampleChild)).tail (.reflected _ [object])).tail
      (.event (.ok (.apply (some "node-1"))) hwatcher rfl)
  obtain ⟨feed, hsteps, -, howner⟩ := node_events_reach_owners Machine.sampleKube
    (sampleNodeWatching [object]) hrun 0 sampleChild hwatcher rfl
  exact ⟨[object], feed, hsteps, howner (.ok (.apply (some "node-1")), [object])
    (List.mem_singleton_self _) (some "node-1") Machine.sampleOwnedMachine object rfl hobject
    (List.mem_singleton_self _) ⟨"node-1", rfl, by decide, rfl⟩⟩

end Sample

end FiveSpot.Child
