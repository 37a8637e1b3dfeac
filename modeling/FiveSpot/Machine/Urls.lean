import FiveSpot.Machine.Steps

/-!
# Where requests go

The paths of the creates and deletes are put together from parts of the specification without any
escaping. A request goes where it is meant to go exactly if no part that is put in holds a separator
and the API group is allowed; the checks before a create see to the group only, and a delete has no
checks.
-/

namespace FiveSpot.Machine

set_option autoImplicit false

open Effects Effects.Prog

def isSeparator (c : Char) : Bool := c == '/' || c == '?' || c == '#'

def plain (s : String) : Bool := s.toList.all fun c => !isSeparator c

def segments (path : String) : List String := (path.toList.splitOnP isSeparator).map .ofList

def resourcePath (version : String) (k : ObjectKey) : String :=
  "/apis/" ++ k.group ++ "/" ++ version ++ "/namespaces/" ++ k.ns ++ "/" ++ k.plural

def objectPath (version : String) (k : ObjectKey) : String := resourcePath version k ++ "/" ++ k.name

section Segments

theorem plain_iff {s : String} : plain s = true ↔ ∀ c ∈ s.toList, isSeparator c = false := by
  simp [plain]

theorem notMem_splitOnP {α : Type} {p : α → Bool} {xs part : List α}
    (hpart : part ∈ xs.splitOnP p) : ∀ x ∈ part, p x = false := by
  induction xs generalizing part with
  | nil =>
    obtain rfl : part = [] := by simpa using hpart
    simp
  | cons x xs ih =>
    rw [List.splitOnP_cons_eq_if_modifyHead] at hpart
    split at hpart
    · rcases List.mem_cons.mp hpart with rfl | hpart
      · simp
      · exact ih hpart
    · rename_i hx
      cases hsplit : xs.splitOnP p with
      | nil => simp [hsplit] at hpart
      | cons head tail =>
        rw [hsplit, List.modifyHead_cons] at hpart
        rcases List.mem_cons.mp hpart with rfl | hpart
        · intro y hy
          rcases List.mem_cons.mp hy with rfl | hy
          · simpa using hx
          · exact ih (hsplit ▸ List.mem_cons_self) y hy
        · exact ih (hsplit ▸ List.mem_cons_of_mem _ hpart)

theorem plain_of_mem_segments {path part : String} (h : part ∈ segments path) :
    plain part = true := by
  obtain ⟨cs, hcs, rfl⟩ := List.mem_map.mp h
  refine plain_iff.mpr ?_
  rw [String.toList_ofList]
  exact notMem_splitOnP hcs

theorem segments_of_plain {part : String} (h : plain part = true) : segments part = [part] := by
  simp [segments, List.splitOnP_eq_singleton (plain_iff.mp h)]

theorem segments_append {part rest : String} (h : plain part = true) :
    segments (part ++ "/" ++ rest) = part :: segments rest := by
  have hsplit := List.splitOnP_append_cons_of_forall_mem (plain_iff.mp h) '/' rfl rest.toList
  simp [segments, hsplit]

theorem segments_resourcePath {version : String} {k : ObjectKey} (hgroup : plain k.group = true)
    (hversion : plain version = true) (hns : plain k.ns = true) (hplural : plain k.plural = true) :
    segments (resourcePath version k) =
      ["", "apis", k.group, version, "namespaces", k.ns, k.plural] := by
  have hpath : resourcePath version k = "" ++ "/" ++ ("apis" ++ "/" ++ (k.group ++ "/" ++
      (version ++ "/" ++ ("namespaces" ++ "/" ++ (k.ns ++ "/" ++ k.plural))))) := by
    refine String.toList_inj.mp ?_
    simp [resourcePath]
  rw [hpath, segments_append (by decide), segments_append (by decide), segments_append hgroup,
    segments_append hversion, segments_append (by decide), segments_append hns,
    segments_of_plain hplural]

theorem segments_objectPath {version : String} {k : ObjectKey} (hgroup : plain k.group = true)
    (hversion : plain version = true) (hns : plain k.ns = true) (hplural : plain k.plural = true)
    (hname : plain k.name = true) :
    segments (objectPath version k) =
      ["", "apis", k.group, version, "namespaces", k.ns, k.plural, k.name] := by
  have hpath : objectPath version k = "" ++ "/" ++ ("apis" ++ "/" ++ (k.group ++ "/" ++
      (version ++ "/" ++ ("namespaces" ++ "/" ++ (k.ns ++ "/" ++ (k.plural ++ "/" ++ k.name)))))) := by
    refine String.toList_inj.mp ?_
    simp [objectPath, resourcePath]
  rw [hpath, segments_append (by decide), segments_append (by decide), segments_append hgroup,
    segments_append hversion, segments_append (by decide), segments_append hns,
    segments_append hplural, segments_of_plain hname]

end Segments

/-- The groups of embedded objects, and the Machine. -/
def allowedTarget (k : ObjectKey) : Bool :=
  (allowedBootstrapApiGroups ++ allowedInfrastructureApiGroups).contains k.group ||
    k.group == capiGroup && k.plural == capiResourceMachines

/-- A create or delete goes to the resource's own namespace and, for a delete, to the object of its
own name, in an allowed group. -/
structure WellAddressed (r : ScheduledMachine) (ns : String) (q : Request) : Prop where
  create : ∀ version k body, q = .create version k body → allowedTarget k = true ∧
    segments (resourcePath version k) = ["", "apis", k.group, version, "namespaces", ns, k.plural]
  delete : ∀ version k, q = .delete version k → allowedTarget k = true ∧
    segments (objectPath version k) =
      ["", "apis", k.group, version, "namespaces", ns, k.plural, r.name]

/-- An embedded resource in an allowed group whose parts can be put into a path. -/
structure Unredirected (embedded : EmbeddedResource) (ns name : String) : Prop where
  target : ∀ apiVersion kind, embedded.apiVersion = some apiVersion → embedded.kind = some kind →
    allowedTarget (objectKey apiVersion kind ns name) = true ∧
      plain (parseApiVersion apiVersion).2 = true ∧ plain (resourcePlural kind) = true

/-- Nothing that the settings and the specification put into a path holds a separator. -/
structure Addressable (s : Settings) (r : ScheduledMachine) (ns : String) : Prop where
  machine : plain (machineApiVersionFor s.capiMachineApiVersion
    r.spec.bootstrapSpec.apiVersion) = true
  bootstrap : Unredirected r.spec.bootstrapSpec ns r.name
  infrastructure : Unredirected r.spec.infrastructureSpec ns r.name

section Requests

variable {r : ScheduledMachine} {ns : String}

theorem plain_group_of_allowed {k : ObjectKey} (hk : allowedTarget k = true) :
    plain k.group = true := by
  have hall : ∀ group ∈ capiGroup :: (allowedBootstrapApiGroups ++ allowedInfrastructureApiGroups),
      plain group = true := by decide
  refine hall _ ?_
  rcases (Bool.or_eq_true _ _).mp hk with hmem | hmachine
  · exact List.mem_cons_of_mem _ (by simpa using hmem)
  · have hgroup : k.group = capiGroup := by simpa using ((Bool.and_eq_true _ _).mp hmachine).1
    exact hgroup ▸ List.mem_cons_self

theorem wellAddressed_delete {version : String} {k : ObjectKey} (hk : allowedTarget k = true)
    (hversion : plain version = true) (hplural : plain k.plural = true) (hns : plain ns = true)
    (hname : plain r.name = true) (htarget : k.ns = ns ∧ k.name = r.name) :
    WellAddressed r ns (.delete version k) where
  create _ _ _ heq := by cases heq
  delete version k heq := by
    cases heq
    obtain ⟨rfl, hkname⟩ := htarget
    refine ⟨hk, ?_⟩
    rw [segments_objectPath (plain_group_of_allowed hk) hversion hns hplural (hkname ▸ hname), hkname]

theorem wellAddressed_create {version : String} {k : ObjectKey} {body : Json}
    (hk : allowedTarget k = true) (hversion : plain version = true)
    (hplural : plain k.plural = true) (hns : plain ns = true) (htarget : k.ns = ns) :
    WellAddressed r ns (.create version k body) where
  create version k body heq := by
    cases heq
    subst htarget
    exact ⟨hk, segments_resourcePath (plain_group_of_allowed hk) hversion hns hplural⟩
  delete _ _ heq := by cases heq

theorem plain_of_wellAddressed {version : String} {k : ObjectKey}
    (h : WellAddressed r ns (.delete version k)) :
    allowedTarget k = true ∧ plain version = true ∧ plain k.plural = true := by
  obtain ⟨hk, hsegments⟩ := h.delete version k rfl
  have hmem : ∀ part ∈ ["", "apis", k.group, version, "namespaces", ns, k.plural, r.name],
      plain part = true := fun part hpart => plain_of_mem_segments (hsegments ▸ hpart)
  exact ⟨hk, hmem version (by simp), hmem k.plural (by simp)⟩

theorem wellAddressed_info (line : LogLine) : WellAddressed r ns (.info line) where
  create _ _ _ heq := by cases heq
  delete _ _ heq := by cases heq

theorem wellAddressed_of_calm {q : Request} (hq : q.calm = true) : WellAddressed r ns q where
  create version k body heq := by
    subst heq
    cases hq
  delete version k heq := by
    subst heq
    cases hq

theorem plain_machines : plain capiResourceMachines = true := by decide

theorem uses_of_quietly {α : Type} {x : Reconcile α} (hx : Quietly x) :
    x.run.Uses (WellAddressed r ns) :=
  hx.uses.mono fun _ => wellAddressed_of_calm

end Requests

section Programs

variable {α β : Type} {P : Request → Prop} {s : Settings} {r : ScheduledMachine} {ns : String}

theorem uses_checked {f : α → Reconcile β} (v : Except ReconcilerError α)
    (hf : ∀ a, v = .ok a → (f a).run.Uses P) : (check v >>= f).run.Uses P := by
  cases v with
  | ok a => exact hf a rfl
  | error e => trivial

theorem uses_deleteKey {context version : String} {k : ObjectKey} :
    (deleteKey context version k).run.Uses P ↔ P (.delete version k) := by
  refine ⟨fun h => h.1, fun h => ⟨h, fun answer => ?_⟩⟩
  rcases answer with e | u
  · change (if e.isNotFound then pure ()
      else throw (.capiError (context ++ ": " ++ e.text)) : Reconcile Unit).run.Uses P
    split <;> trivial
  · trivial

theorem uses_deleteKey_bind {context version : String} {k : ObjectKey} {f : Unit → Reconcile β} :
    (deleteKey context version k >>= f).run.Uses P ↔
      P (.delete version k) ∧ (f ()).run.Uses P :=
  ⟨fun h => ⟨h.1, h.2 (.ok ())⟩, fun h => uses_run_bind (uses_deleteKey.mpr h.1) fun _ => h.2⟩

theorem uses_create {context apiVersion kind name : String} {body : Json}
    (h : P (.create (parseApiVersion apiVersion).2 (objectKey apiVersion kind ns name) body)) :
    (createDynamicResource context apiVersion kind ns name body).run.Uses P := by
  refine ⟨h, fun answer => ?_⟩
  rcases answer with e | u
  · change (if e.isAlreadyExists then pure ()
      else throw (.capiError (context ++ ": " ++ e.text)) : Reconcile Unit).run.Uses P
    split <;> trivial
  · trivial

theorem uses_deleteEmbedded {embedded : EmbeddedResource} (hns : plain ns = true)
    (hname : plain r.name = true) :
    (deleteEmbedded embedded ns r.name).run.Uses (WellAddressed r ns) ↔
      Unredirected embedded ns r.name := by
  unfold deleteEmbedded
  cases hapi : embedded.apiVersion with
  | none => exact ⟨fun _ => ⟨fun _ _ h => by simp [hapi] at h⟩, fun _ => trivial⟩
  | some apiVersion =>
    cases hkind : embedded.kind with
    | none => exact ⟨fun _ => ⟨fun _ _ _ h => by simp [hkind] at h⟩, fun _ => trivial⟩
    | some kind =>
      refine uses_deleteKey.trans ⟨fun h => ⟨fun _ _ ha hk => ?_⟩, fun h => ?_⟩
      · rw [hapi] at ha
        rw [hkind] at hk
        cases ha
        cases hk
        exact plain_of_wellAddressed h
      · obtain ⟨hk, hversion, hplural⟩ := h.target apiVersion kind hapi hkind
        exact wellAddressed_delete hk hversion hplural hns hname ⟨rfl, rfl⟩

theorem uses_removeMachine (hns : plain ns = true) (hname : plain r.name = true) :
    (removeMachineFromCluster s r ns).run.Uses (WellAddressed r ns) ↔ Addressable s r ns := by
  refine uses_deleteKey_bind.trans ⟨fun ⟨hmachine, hrest⟩ => ?_, fun h => ⟨?_, ?_⟩⟩
  · -- the second embedded delete is reached however the first one is answered with success
    have hboth : (deleteEmbedded r.spec.bootstrapSpec ns r.name).run.Uses (WellAddressed r ns) ∧
        (deleteEmbedded r.spec.infrastructureSpec ns r.name).run.Uses (WellAddressed r ns) := by
      revert hrest
      unfold deleteEmbedded
      split
      · exact fun h => ⟨uses_deleteKey.mpr h.1, h.2 (.ok ())⟩
      · exact fun h => ⟨trivial, h⟩
    exact ⟨(plain_of_wellAddressed hmachine).2.1, (uses_deleteEmbedded hns hname).mp hboth.1,
      (uses_deleteEmbedded hns hname).mp hboth.2⟩
  · exact wellAddressed_delete rfl h.machine plain_machines hns hname ⟨rfl, rfl⟩
  · exact uses_run_bind ((uses_deleteEmbedded hns hname).mpr h.bootstrap) fun _ =>
      (uses_deleteEmbedded hns hname).mpr h.infrastructure

theorem uses_createEmbedded {context apiVersion kind : String} {body : Json}
    {embedded : EmbeddedResource} (hns : plain ns = true) (h : Unredirected embedded ns r.name)
    (hapi : embedded.apiVersion = some apiVersion) (hkind : embedded.kind = some kind) :
    (createDynamicResource context apiVersion kind ns r.name body).run.Uses
      (WellAddressed r ns) := by
  obtain ⟨hk, hversion, hplural⟩ := h.target apiVersion kind hapi hkind
  exact uses_create (wellAddressed_create hk hversion hplural hns rfl)

theorem uses_addMachine (hns : plain ns = true) (h : Addressable s r ns) :
    (addMachineToCluster s r ns).run.Uses (WellAddressed r ns) := by
  unfold addMachineToCluster
  simp only
  refine uses_run_bind ((uses_run_ask _).mpr (wellAddressed_info _)) fun _ => ?_
  refine uses_checked _ fun bootstrapApiVersion hba => uses_checked _ fun bootstrapKind hbk =>
    uses_checked _ fun infraApiVersion hia => uses_checked _ fun infraKind hik => ?_
  have hba := required_eq_ok hba
  have hversion := h.machine
  rw [hba] at hversion
  refine uses_checked _ fun _ _ => uses_checked _ fun _ _ => uses_checked _ fun _ _ =>
    uses_checked _ fun _ _ => ?_
  refine uses_run_bind (uses_of_quietly (still_ensureCanCreate ..).quietly) fun _ =>
    uses_run_bind (uses_of_quietly (still_ensureCanCreate ..).quietly) fun _ =>
    uses_run_bind (uses_of_quietly (still_ensureCanCreate ..).quietly) fun _ => ?_
  refine uses_checked _ fun _ _ => uses_checked _ fun _ _ => uses_checked _ fun _ _ =>
    uses_checked _ fun uid _ => ?_
  refine uses_run_bind (uses_createEmbedded hns h.bootstrap hba (required_eq_ok hbk)) fun _ =>
    uses_run_bind (uses_createEmbedded hns h.infrastructure (required_eq_ok hia)
      (required_eq_ok hik)) fun _ => uses_create ?_
  rw [objectKey_machine, parseApiVersion_machine]
  exact wellAddressed_create rfl hversion plain_machines hns rfl

/--
The creates and deletes of one resource go where they are meant to go, whatever the answers are,
exactly if nothing that is put into their paths holds a separator and the groups are allowed.
-/
theorem requests_stay_in_place (s : Settings) (r : ScheduledMachine) (ns : String)
    (hns : plain ns = true) (hname : plain r.name = true) :
    ((addMachineToCluster s r ns).run.Uses (WellAddressed r ns) ∧
      (removeMachineFromCluster s r ns).run.Uses (WellAddressed r ns)) ↔ Addressable s r ns :=
  ⟨fun h => (uses_removeMachine hns hname).mp h.2,
    fun h => ⟨uses_addMachine hns h, (uses_removeMachine hns hname).mpr h⟩⟩

theorem sample_requests_stay_in_place :
    Addressable sampleWorld.settings sampleWorld.machine "default" ∧
      (addMachineToCluster sampleWorld.settings sampleWorld.machine "default").run.Uses
        (WellAddressed sampleWorld.machine "default") ∧
      (removeMachineFromCluster sampleWorld.settings sampleWorld.machine "default").run.Uses
        (WellAddressed sampleWorld.machine "default") := by
  have hsample : Addressable sampleWorld.settings sampleWorld.machine "default" := by
    refine ⟨by decide +kernel, ⟨fun apiVersion kind ha hk => ?_⟩, ⟨fun apiVersion kind ha hk => ?_⟩⟩
    all_goals
      cases ha
      cases hk
      decide +kernel
  exact ⟨hsample, (requests_stay_in_place sampleWorld.settings sampleWorld.machine "default"
    (by decide) (by decide)).mpr hsample⟩

end Programs

/-- The sample with a kind that names another object and cuts off the rest of the path. -/
def redirectedMachine : ScheduledMachine :=
  { sampleWorld.machine with spec := { sampleSpec with bootstrapSpec :=
      ⟨.obj [("apiVersion", .str "bootstrap.cluster.x-k8s.io/v1beta1"),
        ("kind", .str "K0sWorkerConfigs/other?"), ("spec", .obj [])]⟩ } }

/-- The group passes its check, and the delete is sent to the object `other`. -/
theorem delete_addresses_other_object :
    plain "default" = true ∧ plain redirectedMachine.name = true ∧
      validateApiGroup "bootstrap.cluster.x-k8s.io/v1beta1" allowedBootstrapApiGroups "bootstrap" =
        .ok () ∧
      segments (objectPath "v1beta1" (objectKey "bootstrap.cluster.x-k8s.io/v1beta1"
        "K0sWorkerConfigs/other?" "default" "spot")) =
        ["", "apis", "bootstrap.cluster.x-k8s.io", "v1beta1", "namespaces", "default",
          "k0sworkerconfigs", "other", "s", "spot"] ∧
      ¬ (removeMachineFromCluster sampleWorld.settings redirectedMachine "default").run.Uses
        (WellAddressed redirectedMachine "default") := by
  refine ⟨by decide, by decide, by decide +kernel, by decide +kernel, fun h => ?_⟩
  have hbootstrap := ((uses_removeMachine (by decide) (by decide)).mp h).bootstrap
  have hplural := (hbootstrap.target _ _ rfl rfl).2.2
  exact absurd hplural (by decide)

end FiveSpot.Machine
