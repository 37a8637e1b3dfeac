import FiveSpot.Capacity.Reconcile
import FiveSpot.Effects.Watch
import FiveSpot.Reference.Keys
import Mathlib.Data.Finset.Basic
import Mathlib.Data.List.AList

/-!
# The reverse index and its watchers

`reconcilers/dynamic_ref_watch.rs`: for every referenced object the owners that reference it, and one
watcher task for every kind referenced. The index is kept by the events of a reflector over the
owners, as `cmd/controller.rs` feeds them to it: nothing happens at the two ends of a listing, so an
owner that was deleted while the connection was down stays in the index.
-/

namespace FiveSpot.Reference

set_option autoImplicit false

open Effects

section Refs

variable {Owner : Type} [DecidableEq Owner]

abbrev Refs (Owner : Type) [DecidableEq Owner] := AList fun _ : ProviderKey => Finset Owner

namespace Refs

def ownersAt (refs : Refs Owner) (key : ProviderKey) : Finset Owner := (refs.lookup key).getD ∅

/-- `refs.entry(key).or_default().insert(owner)`. -/
def addOwner (refs : Refs Owner) (owner : Owner) (key : ProviderKey) : Refs Owner :=
  refs.insert key (insert owner (refs.ownersAt key))

def removeFromRefs (refs : Refs Owner) (owner : Owner) (key : ProviderKey) : Refs Owner :=
  match refs.lookup key with
  | none => refs
  | some set => if set.erase owner = ∅ then refs.erase key else refs.insert key (set.erase owner)

def Tidy (refs : Refs Owner) : Prop := ∀ key set, refs.lookup key = some set → set.Nonempty

variable {refs : Refs Owner} {owner : Owner} {key key' : ProviderKey}

theorem ownersAt_addOwner : (refs.addOwner owner key).ownersAt key' =
    if key' = key then insert owner (refs.ownersAt key) else refs.ownersAt key' := by
  unfold ownersAt addOwner
  by_cases hkey : key' = key
  · subst hkey
    simp [ownersAt]
  · simp [hkey, AList.lookup_insert_ne hkey]

theorem ownersAt_removeFromRefs : (refs.removeFromRefs owner key).ownersAt key' =
    if key' = key then (refs.ownersAt key).erase owner else refs.ownersAt key' := by
  unfold ownersAt removeFromRefs
  by_cases hkey : key' = key
  · subst hkey
    split
    · rename_i hnone
      simp [hnone]
    · rename_i set hset
      split
      · rename_i hempty
        simp [hset, hempty]
      · simp [hset]
  · split
    · simp [hkey]
    · split
      · simp [AList.lookup_erase_ne hkey]
      · simp [AList.lookup_insert_ne hkey]

theorem Tidy.insert (hrefs : refs.Tidy) {set : Finset Owner} (hset : set.Nonempty) :
    Tidy (refs.insert key set) := by
  intro key' set' hlookup
  by_cases hkey : key' = key
  · subst hkey
    rw [AList.lookup_insert] at hlookup
    rwa [← Option.some.inj hlookup]
  · rw [AList.lookup_insert_ne hkey] at hlookup
    exact hrefs key' set' hlookup

theorem Tidy.addOwner (hrefs : refs.Tidy) : (refs.addOwner owner key).Tidy :=
  hrefs.insert (Finset.insert_nonempty owner _)

theorem Tidy.removeFromRefs (hrefs : refs.Tidy) : (refs.removeFromRefs owner key).Tidy := by
  unfold Refs.removeFromRefs
  split
  · exact hrefs
  · split
    · intro key' set' hlookup
      by_cases hkey : key' = key
      · rw [hkey, AList.lookup_erase] at hlookup
        cases hlookup
      · rw [AList.lookup_erase_ne hkey] at hlookup
        exact hrefs key' set' hlookup
    · rename_i hne
      exact hrefs.insert (Finset.nonempty_iff_ne_empty.mpr hne)

end Refs

/-- `ReverseIndex`: the owners of each referenced object, and the object each owner references. -/
structure ReverseIndex (Owner : Type) [DecidableEq Owner] where
  refs : Refs Owner
  ownerKey : AList fun _ : Owner => ProviderKey

namespace ReverseIndex

def empty : ReverseIndex Owner := ⟨∅, ∅⟩

/-- The first half of `register`: an owner that referenced another object is taken out there. -/
def withoutPrevious (ix : ReverseIndex Owner) (owner : Owner) (key : ProviderKey) : Refs Owner :=
  match ix.ownerKey.lookup owner with
  | some previous => if previous ≠ key then ix.refs.removeFromRefs owner previous else ix.refs
  | none => ix.refs

def register (ix : ReverseIndex Owner) (owner : Owner) (key : ProviderKey) : ReverseIndex Owner where
  refs := (ix.withoutPrevious owner key).addOwner owner key
  ownerKey := ix.ownerKey.insert owner key

def deregister (ix : ReverseIndex Owner) (owner : Owner) : ReverseIndex Owner :=
  match ix.ownerKey.lookup owner with
  | none => ix
  | some key => ⟨ix.refs.removeFromRefs owner key, ix.ownerKey.erase owner⟩

/-- The owners at `key`; the source collects them in the order of the hash set. -/
def lookup (ix : ReverseIndex Owner) (key : ProviderKey) : Finset Owner := ix.refs.ownersAt key

def referencedGvks (ix : ReverseIndex Owner) : Finset GroupVersionKind :=
  (ix.refs.keys.map fun key => key.gvk).toFinset

structure Coherent (ix : ReverseIndex Owner) : Prop where
  mem_lookup_iff : ∀ key owner, owner ∈ ix.lookup key ↔ ix.ownerKey.lookup owner = some key
  tidy : ix.refs.Tidy

variable {ix : ReverseIndex Owner}

theorem coherent_empty : (empty : ReverseIndex Owner).Coherent where
  mem_lookup_iff := by simp [empty, lookup, Refs.ownersAt]
  tidy := by intro key set hlookup; cases hlookup

theorem lookup_ownerKey_deregister (owner : Owner) :
    (fun owner' => (ix.deregister owner).ownerKey.lookup owner') =
      Function.update (fun owner' => ix.ownerKey.lookup owner') owner none := by
  funext owner'
  unfold deregister
  by_cases howner : owner' = owner
  · subst howner
    split
    · rename_i hnone
      simp [hnone]
    · simp
  · split
    · simp [howner]
    · simp [howner, AList.lookup_erase_ne howner]

theorem lookup_ownerKey_register (owner : Owner) (key : ProviderKey) :
    (fun owner' => (ix.register owner key).ownerKey.lookup owner') =
      Function.update (fun owner' => ix.ownerKey.lookup owner') owner (some key) := by
  funext owner'
  by_cases howner : owner' = owner
  · subst howner
    simp [register]
  · simp [register, howner, AList.lookup_insert_ne howner]

section Coherent

variable (hix : ix.Coherent)
include hix

theorem Coherent.deregister (owner : Owner) : (ix.deregister owner).Coherent := by
  unfold ReverseIndex.deregister
  split
  · exact hix
  · rename_i key hkey
    refine ⟨fun key' owner' => ?_, hix.tidy.removeFromRefs⟩
    have hmem : owner' ∈ ix.refs.ownersAt key' ↔ ix.ownerKey.lookup owner' = some key' :=
      hix.mem_lookup_iff key' owner'
    rw [lookup, Refs.ownersAt_removeFromRefs]
    by_cases howner : owner' = owner
    · subst howner
      by_cases hsame : key' = key
      · simp [hsame]
      · simp [hsame, hmem, hkey, Ne.symm hsame]
    · rw [AList.lookup_erase_ne howner, ← hmem]
      by_cases hsame : key' = key
      · simp [hsame, howner]
      · simp [hsame]

theorem Coherent.mem_withoutPrevious {owner owner' : Owner} {key key' : ProviderKey}
    (hne : owner' ≠ owner ∨ key' ≠ key) : owner' ∈ (ix.withoutPrevious owner key).ownersAt key' ↔
      owner' ≠ owner ∧ ix.ownerKey.lookup owner' = some key' := by
  have hmem : owner' ∈ ix.refs.ownersAt key' ↔ ix.ownerKey.lookup owner' = some key' :=
    hix.mem_lookup_iff key' owner'
  unfold withoutPrevious
  by_cases howner : owner' = owner
  · subst howner
    have hkey : key' ≠ key := hne.resolve_left fun h => h rfl
    split
    · rename_i previous hprevious
      split
      · rw [Refs.ownersAt_removeFromRefs]
        by_cases hsame : key' = previous
        · simp [hsame]
        · simp [hsame, hmem, hprevious, Ne.symm hsame]
      · rename_i hkept
        obtain rfl : previous = key := by simpa using hkept
        simp [hmem, hprevious, Ne.symm hkey]
    · rename_i hnone
      simp [hmem, hnone]
  · split
    · split
      · rw [Refs.ownersAt_removeFromRefs, ← hmem]
        split
        · rename_i hsame
          simp [howner, hsame]
        · simp [howner]
      · simp [howner, hmem]
    · simp [howner, hmem]

theorem Coherent.register (owner : Owner) (key : ProviderKey) : (ix.register owner key).Coherent := by
  refine ⟨fun key' owner' => ?_, ?_⟩
  · rw [lookup, ReverseIndex.register, Refs.ownersAt_addOwner]
    by_cases howner : owner' = owner
    · subst howner
      rw [AList.lookup_insert]
      by_cases hsame : key' = key
      · simp [hsame]
      · simp [hsame, hix.mem_withoutPrevious (.inr hsame), Ne.symm hsame]
    · rw [AList.lookup_insert_ne howner]
      by_cases hsame : key' = key
      · simp [hsame, howner, hix.mem_withoutPrevious (.inl howner)]
      · simp [hsame, howner, hix.mem_withoutPrevious (.inl howner)]
  · refine Refs.Tidy.addOwner ?_
    unfold withoutPrevious
    split
    · split
      · exact hix.tidy.removeFromRefs
      · exact hix.tidy
    · exact hix.tidy

theorem Coherent.mem_referencedGvks {gvk : GroupVersionKind} :
    gvk ∈ ix.referencedGvks ↔ ∃ key owner, ix.ownerKey.lookup owner = some key ∧ key.gvk = gvk := by
  simp only [referencedGvks, List.mem_toFinset, List.mem_map]
  constructor
  · rintro ⟨key, hkey, hgvk⟩
    obtain ⟨set, hset⟩ := Option.isSome_iff_exists.mp (AList.lookup_isSome.mpr (AList.mem_keys.mpr hkey))
    obtain ⟨owner, howner⟩ := hix.tidy key set hset
    refine ⟨key, owner, (hix.mem_lookup_iff key owner).mp ?_, hgvk⟩
    simpa [lookup, Refs.ownersAt, hset] using howner
  · rintro ⟨key, owner, hlookup, hgvk⟩
    refine ⟨key, ?_, hgvk⟩
    have howner : owner ∈ ix.lookup key := (hix.mem_lookup_iff key owner).mpr hlookup
    by_contra hkey
    have hnone : ix.refs.lookup key = none :=
      AList.lookup_eq_none.mpr fun h => hkey (AList.mem_keys.mp h)
    simp [lookup, Refs.ownersAt, hnone] at howner

end Coherent

end ReverseIndex

end Refs

section Manager

variable {Owner Obj : Type} [DecidableEq Owner]

/-- `sync_watchers`: ends the tasks no longer wanted and starts the missing ones. -/
def syncWatchers (desired watchers : Finset GroupVersionKind) : Finset GroupVersionKind :=
  watchers.filter (· ∈ desired) ∪ desired

theorem syncWatchers_eq (desired watchers : Finset GroupVersionKind) :
    syncWatchers desired watchers = desired := by
  ext gvk
  simp [syncWatchers]

/-- The index and the running watcher tasks, one for each kind the index references. -/
structure DynamicRefWatchManager (Owner : Type) [DecidableEq Owner] where
  index : ReverseIndex Owner
  watchers : Finset GroupVersionKind
  coherent : index.Coherent
  synced : watchers = index.referencedGvks

namespace DynamicRefWatchManager

def new : DynamicRefWatchManager Owner := ⟨.empty, ∅, ReverseIndex.coherent_empty, rfl⟩

def reindexed (m : DynamicRefWatchManager Owner) (index : ReverseIndex Owner)
    (coherent : index.Coherent) : DynamicRefWatchManager Owner :=
  ⟨index, syncWatchers index.referencedGvks m.watchers, coherent, syncWatchers_eq _ _⟩

/-- `ObjectRef::from_obj` and the extractor of the reference. -/
structure Edge (Owner Obj : Type) where
  refOf : Obj → Owner
  keyFor : Obj → Option ProviderKey

def forget (E : Edge Owner Obj) (m : DynamicRefWatchManager Owner) (owner : Obj) :
    DynamicRefWatchManager Owner :=
  m.reindexed (m.index.deregister (E.refOf owner)) (m.coherent.deregister _)

def observe (E : Edge Owner Obj) (m : DynamicRefWatchManager Owner) (owner : Obj) :
    DynamicRefWatchManager Owner :=
  match E.keyFor owner with
  | some key => m.reindexed (m.index.register (E.refOf owner) key) (m.coherent.register _ _)
  | none => m.reindexed (m.index.deregister (E.refOf owner)) (m.coherent.deregister _)

def handle (E : Edge Owner Obj) (m : DynamicRefWatchManager Owner) :
    WatchEvent Obj → DynamicRefWatchManager Owner
  | .apply owner | .initApply owner => m.observe E owner
  | .delete owner => m.forget E owner
  | .init | .initDone => m

def knows (m : DynamicRefWatchManager Owner) (owner : Owner) : Option ProviderKey :=
  m.index.ownerKey.lookup owner

variable {E : Edge Owner Obj} {m : DynamicRefWatchManager Owner}

theorem knows_observe (owner : Obj) :
    (m.observe E owner).knows = Function.update m.knows (E.refOf owner) (E.keyFor owner) := by
  unfold observe
  split
  · rename_i key hkey
    rw [hkey]
    exact ReverseIndex.lookup_ownerKey_register _ key
  · rename_i hkey
    rw [hkey]
    exact ReverseIndex.lookup_ownerKey_deregister _

theorem mirrors (E : Edge Owner Obj) :
    Mirrors E.refOf (handle E) knows fun owner => some (E.keyFor owner) where
  init _ := rfl
  initApply _ owner := knows_observe owner
  initDone _ := rfl
  apply _ owner := knows_observe owner
  delete _ _ := ReverseIndex.lookup_ownerKey_deregister _

/-- Whoever names an object, and nobody else, is found there, and the kinds so named are watched. -/
structure Tracks (names : Obj → ProviderKey → Prop) (live : Owner → Option Obj)
    (m : DynamicRefWatchManager Owner) : Prop where
  lookup : ∀ key owner, owner ∈ m.index.lookup key ↔ ∃ obj, live owner = some obj ∧ names obj key
  watchers : ∀ gvk, gvk ∈ m.watchers ↔
    ∃ owner obj key, live owner = some obj ∧ names obj key ∧ key.gvk = gvk

theorem tracks_iff_knows {names : Obj → ProviderKey → Prop} {live : Owner → Option Obj}
    (hnames : ∀ obj key, E.keyFor obj = some key ↔ names obj key) :
    Tracks names live m ↔ ∀ owner, m.knows owner = (live owner).bind E.keyFor := by
  constructor
  · intro htracks owner
    ext key
    rw [Option.bind_eq_some_iff]
    have hlookup := htracks.lookup key owner
    simp only [← hnames] at hlookup
    rw [← hlookup]
    exact (m.coherent.mem_lookup_iff key owner).symm
  · intro hknows
    have hkey : ∀ owner key, m.index.ownerKey.lookup owner = some key ↔
        ∃ obj, live owner = some obj ∧ names obj key := by
      intro owner key
      rw [show m.index.ownerKey.lookup owner = (live owner).bind E.keyFor from hknows owner,
        Option.bind_eq_some_iff]
      simp only [hnames]
    refine ⟨fun key owner => ?_, fun gvk => ?_⟩
    · rw [m.coherent.mem_lookup_iff, hkey]
    · rw [m.synced, m.coherent.mem_referencedGvks]
      simp only [hkey]
      constructor
      · rintro ⟨key, owner, ⟨obj, hlive, hobj⟩, hgvk⟩
        exact ⟨owner, obj, key, hlive, hobj, hgvk⟩
      · rintro ⟨owner, obj, key, hlive, hobj, hgvk⟩
        exact ⟨key, owner, ⟨obj, hlive, hobj⟩, hgvk⟩

def after (E : Edge Owner Obj) (t : WatchTrace Owner Obj) : DynamicRefWatchManager Owner :=
  consumed (handle E) new t

/-- The owners deleted unseen while the index had them, and not created again since. -/
def overlooked (E : Edge Owner Obj) (t : WatchTrace Owner Obj) (owner : Owner) : Bool :=
  missed E.refOf (handle E) knows new t owner

theorem tracks_iff_overlooked {names : Obj → ProviderKey → Prop}
    (hnames : ∀ obj key, E.keyFor obj = some key ↔ names obj key) {t : WatchTrace Owner Obj}
    {w : Watched Owner Obj} (hrun : WatchRun E.refOf t w) (hwatching : w.phase = .watching) :
    Tracks names w.live (after E t) ↔ ∀ owner, overlooked E t owner = false := by
  rw [tracks_iff_knows hnames]
  refine forall_congr' fun owner => ?_
  exact (mirrors E).knows_eq_iff (fun _ => rfl) hrun hwatching owner

end DynamicRefWatchManager

end Manager

/-- `ObjectRef<K>` as it is compared. -/
structure ObjectRef where
  name : String
  ns : Option String
  deriving DecidableEq

section ScheduledMachine

open Machine (ScheduledMachine)

/-- `SpotScheduleWatchManager` is the manager for this edge. -/
def spotScheduleEdge : DynamicRefWatchManager.Edge ObjectRef ScheduledMachine where
  refOf sm := ⟨sm.name, sm.ns⟩
  keyFor := providerKeyFor

/-- `spec.schedule` of `sm` names the object at `key`. -/
def NamesProvider (sm : ScheduledMachine) (key : ProviderKey) : Prop :=
  Names sm.ns sm.spec.schedule.apiVersion sm.spec.schedule.kind sm.spec.schedule.name key

/--
After a completed listing and after every later event the index and the watchers are those of the live
machines exactly when no indexed machine was deleted unseen and is still away.
-/
theorem index_tracks_iff (t : WatchTrace ObjectRef ScheduledMachine)
    (w : Watched ObjectRef ScheduledMachine) (hrun : WatchRun spotScheduleEdge.refOf t w)
    (hwatching : w.phase = .watching) :
    DynamicRefWatchManager.Tracks NamesProvider w.live (.after spotScheduleEdge t) ↔
      ∀ owner, DynamicRefWatchManager.overlooked spotScheduleEdge t owner = false :=
  DynamicRefWatchManager.tracks_iff_overlooked (fun _ _ => referenceKey_eq_some_iff_names) hrun hwatching

def sampleListed : WatchTrace ObjectRef ScheduledMachine :=
  [.told .initDone, .told (.initApply Machine.sampleWorld.machine), .told .init,
    .put Machine.sampleWorld.machine]

def sampleRef : ObjectRef := ⟨"spot", some "default"⟩

theorem sampleListed_run : WatchRun spotScheduleEdge.refOf sampleListed
    ⟨Function.update (fun _ => none) sampleRef (some Machine.sampleWorld.machine), .watching⟩ := by
  have hput : WatchRun spotScheduleEdge.refOf [.put Machine.sampleWorld.machine] _ :=
    WatchRun.start.step (.put Machine.sampleWorld.machine)
  have hlists := lists_singleton spotScheduleEdge.refOf Machine.sampleWorld.machine
  exact ((hput.step (.init hlists)).step .initApply).step .initDone

theorem index_tracks_sample : DynamicRefWatchManager.Tracks NamesProvider
    (Function.update (fun _ => none) sampleRef (some Machine.sampleWorld.machine))
    (.after spotScheduleEdge sampleListed) := by
  refine (index_tracks_iff sampleListed _ sampleListed_run rfl).mpr fun owner => ?_
  simp [DynamicRefWatchManager.overlooked, missed, sampleListed, Function.update_apply]

/-- The machine is deleted while the connection is down, and the next listing is empty. -/
def sampleUnseen : WatchTrace ObjectRef ScheduledMachine :=
  .told .initDone :: .told .init :: .remove sampleRef :: .broke :: sampleListed

theorem deleted_machine_stays_indexed :
    WatchRun spotScheduleEdge.refOf sampleUnseen ⟨fun _ => none, .watching⟩ ∧
      (DynamicRefWatchManager.after spotScheduleEdge sampleUnseen).index.lookup
          ⟨⟨spotScheduleApiGroup, "v1alpha1", "TimeBasedSchedule"⟩, "default", "office-hours"⟩ =
        {sampleRef} ∧
      (DynamicRefWatchManager.after spotScheduleEdge sampleUnseen).watchers =
        {⟨spotScheduleApiGroup, "v1alpha1", "TimeBasedSchedule"⟩} := by
  refine ⟨?_, by decide +kernel, by decide +kernel⟩
  have hremoved := (sampleListed_run.step .broke).step (.remove sampleRef)
  have hnone : Function.update (Function.update (fun _ => none) sampleRef
      (some Machine.sampleWorld.machine)) sampleRef none = fun _ => none := by
    simp
  rw [hnone] at hremoved
  exact (hremoved.step (.init lists_nil)).step .initDone

end ScheduledMachine

section ScheduledCapacity

open Capacity (ScheduledCapacity)

def capacityScheduleEdge : DynamicRefWatchManager.Edge ObjectRef ScheduledCapacity where
  refOf capacity := ⟨capacity.name, capacity.ns⟩
  keyFor := capacityScheduleKeyFor

def capacityTargetEdge : DynamicRefWatchManager.Edge ObjectRef ScheduledCapacity where
  refOf capacity := ⟨capacity.name, capacity.ns⟩
  keyFor := capacityTargetKeyFor

/-- The managers of the two edges of a `ScheduledCapacity`. -/
structure CapacityWatches where
  schedule : DynamicRefWatchManager ObjectRef
  target : DynamicRefWatchManager ObjectRef

namespace CapacityWatches

def handle (s : CapacityWatches) (event : WatchEvent ScheduledCapacity) : CapacityWatches where
  schedule := .handle capacityScheduleEdge s.schedule event
  target := .handle capacityTargetEdge s.target event

def after (t : WatchTrace ObjectRef ScheduledCapacity) : CapacityWatches :=
  consumed handle ⟨.new, .new⟩ t

theorem after_eq (t : WatchTrace ObjectRef ScheduledCapacity) :
    after t = ⟨.after capacityScheduleEdge t, .after capacityTargetEdge t⟩ := by
  induction t with
  | nil => rfl
  | cons step t ih =>
    cases step with
    | put | remove | broke => exact ih
    | told event =>
      have hstep : after (.told event :: t) = (after t).handle event := rfl
      rw [hstep, ih]
      rfl

end CapacityWatches

/-- Each index is that of the live capacities exactly when it overlooked the deletion of none. -/
theorem capacityWatches_track {t : WatchTrace ObjectRef ScheduledCapacity}
    {w : Watched ObjectRef ScheduledCapacity} (hrun : WatchRun capacityScheduleEdge.refOf t w)
    (hwatching : w.phase = .watching) :
    (DynamicRefWatchManager.Tracks (fun capacity => Names capacity.ns
          capacity.spec.schedule.apiVersion capacity.spec.schedule.kind capacity.spec.schedule.name)
        w.live (CapacityWatches.after t).schedule ↔
      ∀ owner, DynamicRefWatchManager.overlooked capacityScheduleEdge t owner = false) ∧
    (DynamicRefWatchManager.Tracks (fun capacity => Names capacity.ns
          capacity.spec.target.apiVersion capacity.spec.target.kind capacity.name)
        w.live (CapacityWatches.after t).target ↔
      ∀ owner, DynamicRefWatchManager.overlooked capacityTargetEdge t owner = false) := by
  rw [CapacityWatches.after_eq]
  constructor
  · exact DynamicRefWatchManager.tracks_iff_overlooked (E := capacityScheduleEdge)
      (fun _ _ => referenceKey_eq_some_iff_names) hrun hwatching
  · exact DynamicRefWatchManager.tracks_iff_overlooked (E := capacityTargetEdge)
      (fun _ _ => referenceKey_eq_some_iff_names) hrun hwatching

def sampleCapacityListed : WatchTrace ObjectRef ScheduledCapacity :=
  [.told .initDone, .told (.initApply Capacity.sampleWorld.capacity), .told .init,
    .put Capacity.sampleWorld.capacity]

theorem capacityWatches_track_sample : ∃ live, live ⟨"slice", some "default"⟩ ≠ none ∧
    DynamicRefWatchManager.Tracks (fun capacity : ScheduledCapacity => Names capacity.ns
        capacity.spec.schedule.apiVersion capacity.spec.schedule.kind capacity.spec.schedule.name)
      live (CapacityWatches.after sampleCapacityListed).schedule ∧
    DynamicRefWatchManager.Tracks (fun capacity : ScheduledCapacity => Names capacity.ns
        capacity.spec.target.apiVersion capacity.spec.target.kind capacity.name)
      live (CapacityWatches.after sampleCapacityListed).target := by
  have hput : WatchRun capacityScheduleEdge.refOf [.put Capacity.sampleWorld.capacity] _ :=
    WatchRun.start.step (.put Capacity.sampleWorld.capacity)
  have hlists := lists_singleton capacityScheduleEdge.refOf Capacity.sampleWorld.capacity
  have hrun := ((hput.step (.init hlists)).step .initApply).step .initDone
  obtain ⟨hschedule, htarget⟩ := capacityWatches_track hrun rfl
  refine ⟨_, by decide +kernel, hschedule.mpr fun owner => ?_, htarget.mpr fun owner => ?_⟩
  · simp [DynamicRefWatchManager.overlooked, missed, Function.update_apply]
  · simp [DynamicRefWatchManager.overlooked, missed, Function.update_apply, capacityTargetEdge]

end ScheduledCapacity

end FiveSpot.Reference
