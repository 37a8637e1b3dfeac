import FiveSpot.Effects.Tasks
import FiveSpot.Reference.Index

/-!
# What a sequence of calls leaves behind

`observe` and `forget` on one `DynamicRefWatchManager`, in any order and for any owners. What the index
says of an owner is settled by the last call for it alone, and the watcher tasks, as `sync_watchers`
starts and aborts them, are one for each kind that is then referenced.
-/

namespace FiveSpot.Reference

set_option autoImplicit false

open Effects

variable {Owner Obj : Type} [DecidableEq Owner]

inductive Call (Obj : Type) where
  | observe (owner : Obj)
  | forget (owner : Obj)

namespace Call

def owner : Call Obj → Obj
  | .observe owner | .forget owner => owner

def key (E : DynamicRefWatchManager.Edge Owner Obj) : Call Obj → Option ProviderKey
  | .observe owner => E.keyFor owner
  | .forget _ => none

def perform (E : DynamicRefWatchManager.Edge Owner Obj) (m : DynamicRefWatchManager Owner) :
    Call Obj → DynamicRefWatchManager Owner
  | .observe owner => m.observe E owner
  | .forget owner => m.forget E owner

end Call

variable {E : DynamicRefWatchManager.Edge Owner Obj} {calls : List (Call Obj)}

/-- The order in which a hash set is gone through. -/
def Enumerates {α : Type} (found : List α) (set : Finset α) : Prop :=
  found.Nodup ∧ ∀ a, a ∈ found ↔ a ∈ set

/--
The manager and its tasks after a number of calls, the last in front. `sync_watchers` goes through the
wanted kinds in the order of a hash set.
-/
inductive Calls (E : DynamicRefWatchManager.Edge Owner Obj) :
    List (Call Obj) → DynamicRefWatchManager Owner → Tasks GroupVersionKind → Prop
  | new : Calls E [] .new .empty
  | call {calls : List (Call Obj)} {m : DynamicRefWatchManager Owner} {tasks : Tasks GroupVersionKind}
      (h : Calls E calls m tasks) (call : Call Obj) (desired : List GroupVersionKind)
      (hdesired : Enumerates desired (call.perform E m).index.referencedGvks) :
      Calls E (call :: calls) (call.perform E m) (tasks.sync desired)

def lastCall (E : DynamicRefWatchManager.Edge Owner Obj) (calls : List (Call Obj)) (owner : Owner) :
    Option (Call Obj) :=
  calls.find? fun call => decide (E.refOf call.owner = owner)

/-- The last call for the owner was an `observe` that extracted `key`. -/
def References (E : DynamicRefWatchManager.Edge Owner Obj) (calls : List (Call Obj)) (owner : Owner)
    (key : ProviderKey) : Prop :=
  ∃ obj, lastCall E calls owner = some (.observe obj) ∧ E.keyFor obj = some key

theorem references_iff {owner : Owner} {key : ProviderKey} : References E calls owner key ↔
    (lastCall E calls owner).bind (Call.key E) = some key := by
  rw [Option.bind_eq_some_iff]
  constructor
  · rintro ⟨obj, hlast, hkey⟩
    exact ⟨.observe obj, hlast, hkey⟩
  · rintro ⟨call, hlast, hkey⟩
    cases call with
    | observe obj => exact ⟨obj, hlast, hkey⟩
    | forget => cases hkey

variable {m : DynamicRefWatchManager Owner} {tasks : Tasks GroupVersionKind}

theorem knows_perform (call : Call Obj) :
    (call.perform E m).knows = Function.update m.knows (E.refOf call.owner) (call.key E) := by
  cases call with
  | observe owner => exact DynamicRefWatchManager.knows_observe owner
  | forget owner => exact ReverseIndex.lookup_ownerKey_deregister _

theorem Calls.knows_eq (h : Calls E calls m tasks) (owner : Owner) :
    m.knows owner = (lastCall E calls owner).bind (Call.key E) := by
  induction h with
  | new => rfl
  | call _ call desired _ ih =>
    rw [knows_perform, lastCall, List.find?_cons]
    by_cases howner : E.refOf call.owner = owner
    · subst howner
      simp
    · rw [Function.update_of_ne (Ne.symm howner), ih]
      simp [howner, lastCall]

theorem Calls.enumerates_keys (h : Calls E calls m tasks) : Enumerates tasks.keys m.watchers := by
  cases h with
  | new => exact ⟨List.nodup_nil, fun _ => Iff.rfl⟩
  | call _ call desired hdesired =>
    refine ⟨Tasks.nodup_keys _, fun gvk => ?_⟩
    rw [Tasks.mem_keys_sync, DynamicRefWatchManager.synced]
    exact hdesired.2 gvk

/-- What the manager stores, answers and runs, in terms of the last call for each owner. -/
structure Represents (E : DynamicRefWatchManager.Edge Owner Obj) (calls : List (Call Obj))
    (m : DynamicRefWatchManager Owner) (tasks : Tasks GroupVersionKind) : Prop where
  stored : ∀ key owner, (∃ set, m.index.refs.lookup key = some set ∧ owner ∈ set) ↔
    References E calls owner key
  nonempty : ∀ key set, m.index.refs.lookup key = some set → set.Nonempty
  lookup : ∀ key found, Enumerates found (m.index.lookup key) →
    ∀ owner, (References E calls owner key → found.count owner = 1) ∧
      (¬ References E calls owner key → found.count owner = 0)
  watchers : tasks.keys.Nodup ∧ ∀ gvk, gvk ∈ tasks.keys ↔
    ∃ owner key, References E calls owner key ∧ key.gvk = gvk

theorem mem_lookup_iff_stored {ix : ReverseIndex Owner} {key : ProviderKey} {owner : Owner} :
    owner ∈ ix.lookup key ↔ ∃ set, ix.refs.lookup key = some set ∧ owner ∈ set := by
  unfold ReverseIndex.lookup Refs.ownersAt
  cases ix.refs.lookup key <;> simp

/-- After every sequence of calls the manager is what the last call for each owner makes it. -/
theorem calls_represented (E : DynamicRefWatchManager.Edge Owner Obj) (calls : List (Call Obj))
    (m : DynamicRefWatchManager Owner) (tasks : Tasks GroupVersionKind) (h : Calls E calls m tasks) :
    Represents E calls m tasks := by
  have hknows : ∀ owner key, m.index.ownerKey.lookup owner = some key ↔
      References E calls owner key := by
    intro owner key
    rw [references_iff, ← h.knows_eq]
    rfl
  have hlookup : ∀ key owner, owner ∈ m.index.lookup key ↔ References E calls owner key := by
    intro key owner
    rw [m.coherent.mem_lookup_iff, hknows]
  refine ⟨fun key owner => ?_, m.coherent.tidy, fun key found hfound owner => ?_, ?_⟩
  · rw [← mem_lookup_iff_stored, hlookup]
  · rw [← hlookup, ← hfound.2]
    exact ⟨List.count_eq_one_of_mem hfound.1, List.count_eq_zero_of_not_mem⟩
  · obtain ⟨hnodup, hmem⟩ := h.enumerates_keys
    refine ⟨hnodup, fun gvk => ?_⟩
    rw [hmem, m.synced, m.coherent.mem_referencedGvks]
    simp only [hknows]
    constructor
    · rintro ⟨key, owner, hreferences, hgvk⟩
      exact ⟨owner, key, hreferences, hgvk⟩
    · rintro ⟨owner, key, hreferences, hgvk⟩
      exact ⟨key, owner, hreferences, hgvk⟩

section Sample

open Machine (ScheduledMachine)

def sampleKind : GroupVersionKind := ⟨spotScheduleApiGroup, "v1alpha1", "TimeBasedSchedule"⟩

def sampleOtherKind : GroupVersionKind := ⟨spotScheduleApiGroup, "v1alpha1", "CapitalMarketsSchedule"⟩

def sampleOther : ScheduledMachine := { Machine.sampleWorld.machine with name := "batch" }

def sampleRepointed : ScheduledMachine :=
  { Machine.sampleWorld.machine with spec := { Machine.sampleSpec with
      schedule := ⟨spotScheduleApiGroup ++ "/v1alpha1", "CapitalMarketsSchedule", "exchange"⟩ } }

def sampleCalls : List (Call ScheduledMachine) :=
  [.forget sampleOther, .observe sampleRepointed, .observe sampleOther,
    .observe Machine.sampleWorld.machine]

def managerAfter (calls : List (Call ScheduledMachine)) : DynamicRefWatchManager ObjectRef :=
  calls.foldr (fun call m => call.perform spotScheduleEdge m) .new

def sampleTasks : Tasks GroupVersionKind :=
  (((Tasks.empty.sync [sampleKind]).sync [sampleKind]).sync [sampleKind, sampleOtherKind]).sync
    [sampleOtherKind]

theorem enumerates_of_eq {α : Type} [DecidableEq α] {found : List α} {set : Finset α}
    (hnodup : found.Nodup) (h : set = found.toFinset) : Enumerates found set :=
  ⟨hnodup, fun _ => by rw [h, List.mem_toFinset]⟩

/-- The task of the first kind is gone, and what is found under the new reference is its owner. -/
theorem sampleCalls_represented :
    sampleTasks.keys = [sampleOtherKind] ∧
      (managerAfter sampleCalls).index.lookup ⟨sampleOtherKind, "default", "exchange"⟩ = {sampleRef} ∧
      Represents spotScheduleEdge sampleCalls (managerAfter sampleCalls) sampleTasks := by
  refine ⟨by decide, by decide +kernel, calls_represented spotScheduleEdge _ _ _ ?_⟩
  refine (((Calls.new.call _ _ ?_).call _ _ ?_).call _ _ ?_).call _ _ ?_ <;>
    exact enumerates_of_eq (by decide) (by decide +kernel)

end Sample

end FiveSpot.Reference
