import FiveSpot.Capacity.Types
import FiveSpot.Machine.Reconcile

/-!
# The object a reference points at

The key extractors of `reconcilers/dynamic_ref_watch.rs`, and beside them what
`resolve_spot_schedule` asks the API server for. Each place splits `apiVersion` by itself: the
extractors have no key for an `apiVersion` without a slash, the resolver takes such a text as a
version of the core group, and `SpotScheduleRef::group` takes it as the group.
-/

namespace FiveSpot.Reference

set_option autoImplicit false

open Machine (ScheduledMachine validateScheduleRef)

structure GroupVersionKind where
  group : String
  version : String
  kind : String
  deriving DecidableEq

/-- Identity of a referenced object: its kind and where it lives. -/
structure ProviderKey where
  gvk : GroupVersionKind
  ns : String
  name : String
  deriving DecidableEq

/-- The body the three extractors share. -/
def referenceKey (ns : Option String) (apiVersion kind name : String) : Option ProviderKey := do
  let ns ← ns
  let (group, version) ← Text.splitOnce '/' apiVersion
  return { gvk := ⟨group, version, kind⟩, ns := ns, name := name }

def providerKeyFor (sm : ScheduledMachine) : Option ProviderKey :=
  let reference := sm.spec.schedule
  referenceKey sm.ns reference.apiVersion reference.kind reference.name

def capacityScheduleKeyFor (capacity : Capacity.ScheduledCapacity) : Option ProviderKey :=
  let reference := capacity.spec.schedule
  referenceKey capacity.ns reference.apiVersion reference.kind reference.name

/-- The owned object has the name of the `ScheduledCapacity` itself. -/
def capacityTargetKeyFor (capacity : Capacity.ScheduledCapacity) : Option ProviderKey :=
  let target := capacity.spec.target
  referenceKey capacity.ns target.apiVersion target.kind capacity.name

theorem referenceKey_eq_some_iff {ns : Option String} {apiVersion kind name : String}
    {key : ProviderKey} : referenceKey ns apiVersion kind name = some key ↔
      ns = some key.ns ∧ Text.splitOnce '/' apiVersion = some (key.gvk.group, key.gvk.version) ∧
        kind = key.gvk.kind ∧ name = key.name := by
  obtain ⟨⟨group, version, kind'⟩, ns', name'⟩ := key
  cases ns with
  | none => simp [referenceKey]
  | some n =>
    cases hsplit : Text.splitOnce '/' apiVersion with
    | none => simp [referenceKey, hsplit]
    | some parts =>
      obtain ⟨g, v⟩ := parts
      simp only [referenceKey, hsplit, Option.bind_eq_bind, Option.bind_some, Option.pure_def,
        Option.some.injEq, ProviderKey.mk.injEq, GroupVersionKind.mk.injEq, Prod.mk.injEq]
      tauto

/-- A reference from `ns` names the object at `key`, its `apiVersion` in the form `group/version`. -/
structure Names (ns : Option String) (apiVersion kind name : String) (key : ProviderKey) : Prop where
  ns : ns = some key.ns
  apiVersion : apiVersion = key.gvk.group ++ "/" ++ key.gvk.version
  group : '/' ∉ key.gvk.group.toList
  kind : kind = key.gvk.kind
  name : name = key.name

theorem referenceKey_eq_some_iff_names {ns : Option String} {apiVersion kind name : String}
    {key : ProviderKey} :
    referenceKey ns apiVersion kind name = some key ↔ Names ns apiVersion kind name key := by
  rw [referenceKey_eq_some_iff, Text.splitOnce_eq_some_iff]
  constructor
  · rintro ⟨hns, ⟨hjoin, hgroup⟩, hkind, hname⟩
    exact ⟨hns, hjoin, hgroup, hkind, hname⟩
  · rintro ⟨hns, hjoin, hgroup, hkind, hname⟩
    exact ⟨hns, ⟨hjoin, hgroup⟩, hkind, hname⟩

theorem referenceKey_isSome_iff {ns : Option String} {apiVersion kind name : String} :
    (referenceKey ns apiVersion kind name).isSome = true ↔
      ns.isSome = true ∧ '/' ∈ apiVersion.toList := by
  rw [← Text.splitOnce_isSome_iff]
  cases ns <;> cases h : Text.splitOnce '/' apiVersion <;> simp [referenceKey, h]

section Resolution

inductive Query where
  | pinnedKind (gvk : GroupVersionKind)
  | getOpt (ns name : String)
  deriving DecidableEq

def record {α : Type} (query : Query) (answer : α) : StateM (List Query) α := do
  modify (· ++ [query])
  return answer

/-- The requests a resolution makes when discovery and the GET are answered like this. -/
def queries (discovery : Except KubeError Unit) (object : Except KubeError (Option Json))
    (ns : String) (reference : SpotScheduleRef) : List Query :=
  (StateT.run (resolveSpotSchedule (m := StateM (List Query))
    (fun group version kind => record (.pinnedKind ⟨group, version, kind⟩) discovery)
    (fun ns name => record (.getOpt ns name) object) ns reference) []).2

variable (discovery : Except KubeError Unit) (object : Except KubeError (Option Json)) (ns : String)
  {reference : SpotScheduleRef}

theorem queries_eq {group version : String}
    (hsplit : (Text.splitOnce '/' reference.apiVersion).getD ("", reference.apiVersion) =
      (group, version)) :
    queries discovery object ns reference =
      .pinnedKind ⟨group, version, reference.kind⟩ ::
        if discovery.isOk then [.getOpt ns reference.name] else [] := by
  unfold queries resolveSpotSchedule
  rw [hsplit]
  cases discovery with
  | error e => rfl
  | ok _ =>
    cases object with
    | error e => rfl
    | ok found => cases found <;> rfl

end Resolution

/--
The resolver looks in the providers' group, and the machine is indexed under the very object the
resolver reads.
-/
def Agrees (sm : ScheduledMachine) (ns : String) : Prop :=
  ∃ key, providerKeyFor sm = some key ∧ key.gvk.group = spotScheduleApiGroup ∧
    ∀ discovery object, queries discovery object ns sm.spec.schedule =
      .pinnedKind key.gvk :: if discovery.isOk then [.getOpt key.ns key.name] else []

theorem group_of_validated {reference : SpotScheduleRef} {group version : String}
    (hvalid : validateScheduleRef reference = .ok ())
    (hsplit : Text.splitOnce '/' reference.apiVersion = some (group, version)) :
    group = spotScheduleApiGroup := by
  unfold validateScheduleRef at hvalid
  split at hvalid
  · rename_i hgroup
    simpa [SpotScheduleRef.isSpotScheduleGroup, SpotScheduleRef.group, hsplit] using hgroup
  · cases hvalid

/-- A validated reference is resolved and indexed alike exactly when its `apiVersion` has a slash. -/
theorem agrees_iff (sm : ScheduledMachine) (ns : String) (hns : sm.ns = some ns)
    (hvalid : validateScheduleRef sm.spec.schedule = .ok ()) :
    Agrees sm ns ↔ '/' ∈ sm.spec.schedule.apiVersion.toList := by
  constructor
  · rintro ⟨key, hkey, -, -⟩
    have hsome : (providerKeyFor sm).isSome = true := by simp [hkey]
    exact (referenceKey_isSome_iff.mp hsome).2
  · intro hslash
    obtain ⟨⟨group, version⟩, hsplit⟩ :=
      Option.isSome_iff_exists.mp (Text.splitOnce_isSome_iff.mpr hslash)
    refine ⟨⟨⟨group, version, sm.spec.schedule.kind⟩, ns, sm.spec.schedule.name⟩, ?_, ?_, ?_⟩
    · exact referenceKey_eq_some_iff.mpr ⟨hns, hsplit, rfl, rfl⟩
    · exact group_of_validated hvalid hsplit
    · intro discovery object
      exact queries_eq discovery object ns (by simp [hsplit])

theorem agrees_sample :
    Machine.sampleWorld.machine.ns = some "default" ∧
      Agrees Machine.sampleWorld.machine "default" :=
  ⟨rfl, (agrees_iff Machine.sampleWorld.machine "default" rfl rfl).mpr (by decide)⟩

def sampleUnversioned : ScheduledMachine :=
  let sm := Machine.sampleWorld.machine
  { sm with spec := { sm.spec with
      schedule := { sm.spec.schedule with apiVersion := spotScheduleApiGroup } } }

/-- It passes validation, is resolved in the core group, and nothing wakes it. -/
theorem unversioned_disagrees :
    validateScheduleRef sampleUnversioned.spec.schedule = .ok () ∧
      queries (.ok ()) (.ok none) "default" sampleUnversioned.spec.schedule =
        [.pinnedKind ⟨"", spotScheduleApiGroup, sampleUnversioned.spec.schedule.kind⟩,
          .getOpt "default" sampleUnversioned.spec.schedule.name] ∧
      providerKeyFor sampleUnversioned = none :=
  ⟨rfl, rfl, rfl⟩

end FiveSpot.Reference
