import FiveSpot.Data.Pattern
import FiveSpot.Machine.Creation
import FiveSpot.Machine.Urls
import FiveSpot.Reference.Index

/-!
# From a Machine back to its owner

The mappers of the secondary watches in `reconcilers/helpers.rs` read an object that is not typed. They
find the owner of a Machine by the label that `add_machine_to_cluster` puts on it.
-/

namespace FiveSpot.Machine

set_option autoImplicit false

open Effects Effects.Prog Pattern
open Reference (ObjectRef)

/-- `DynamicObject`: what the mappers read of the metadata, and all that is neither type nor metadata. -/
structure DynamicObject where
  ns : Option String
  labels : Option StringMap
  data : Json

/-- How the kube client reads an untyped object that the API server sends. -/
structure KubeClient where
  fromValue : Json → Option DynamicObject
  /-- Namespace and labels come from the metadata, and other members are left in the data. -/
  fromValue_obj : ∀ (members metadata : List (String × Json)) (ns : String) (labels : StringMap),
    members.lookup "metadata" = some (.obj metadata) → metadata.lookup "namespace" = some (.str ns) →
    metadata.lookup "labels" = some labels.toJson →
    ∃ labels' data, fromValue (.obj members) = some ⟨some ns, some labels', data⟩ ∧
      (∀ key, labels'.lookup key = labels.lookup key) ∧
      ∀ key, key ∉ ["apiVersion", "kind", "metadata"] → data.get? key = members.lookup key

namespace DynamicObject

/-- The owner by the label: a name that is more than blanks, in the namespace of the object. -/
def labelled (object : DynamicObject) : Option ObjectRef := do
  let labels ← object.labels
  let rawName ← labels.lookup scheduledMachineLabel
  let name := Text.trim rawName
  if name.isEmpty then none
  else
    let ns ← object.ns
    return ⟨name, some ns⟩

/-- `status.nodeRef.name`. -/
def nodeRefName (object : DynamicObject) : Option String := do
  let status ← object.data.get? "status"
  let nodeRef ← status.get? "nodeRef"
  let name ← nodeRef.get? "name"
  name.asStr?

end DynamicObject

def machineToScheduledMachine (machine : DynamicObject) : List ObjectRef := machine.labelled.toList

/-- The name of a Node is all that is read of it. -/
def nodeToScheduledMachinesViaMachine (nodeName : Option String) (machines : List DynamicObject) :
    List ObjectRef :=
  match nodeName with
  | none => []
  | some nodeName =>
      if nodeName.isEmpty then []
      else machines.filterMap fun machine => do
        let machineNodeName ← machine.nodeRefName
        if machineNodeName.isEmpty || machineNodeName != nodeName then none else machine.labelled

/-- `[a-z0-9]([-a-z0-9]*[a-z0-9])?(\.[a-z0-9]([-a-z0-9]*[a-z0-9])?)*`, at most 253 characters. -/
def objectNameSchema : StringSchema :=
  let lowerDigits := charRange 'a' 'z' ++ charRange '0' '9'
  ⟨1, 253, separated '.' (bounded lowerDigits ('-' :: lowerDigits))⟩

def IsMachineOf (sm : ScheduledMachine) (ns : String) (body : Json) : Prop :=
  ∃ version bootstrapApiVersion bootstrapKind infraApiVersion infraKind uid,
    body = machineBody sm.spec version bootstrapApiVersion bootstrapKind infraApiVersion infraKind
      sm.name uid ns

def withStatus (status : Option Json) : Json → Json
  | .obj members => .obj ((status.map fun s => Json.insertMember "status" s members).getD members)
  | value => value

/-- A Machine that was made for an owner with a proper name, and the status it has now. -/
structure OwnedMachine where
  owner : ScheduledMachine
  ns : String
  body : Json
  status : Option Json
  home : owner.ns = some ns
  valid : objectNameSchema.Admits owner.name
  built : IsMachineOf owner ns body

namespace OwnedMachine

def ref (made : OwnedMachine) : ObjectRef := ⟨made.owner.name, made.owner.ns⟩

def object? (kube : KubeClient) (made : OwnedMachine) : Option DynamicObject :=
  kube.fromValue (withStatus made.status made.body)

/-- `status.nodeRef` names the Node; nothing is named by an empty name. -/
def NamesNode (made : OwnedMachine) (nodeName : Option String) : Prop :=
  ∃ name, nodeName = some name ∧ name ≠ "" ∧
    ((made.status.bind (Json.get? "nodeRef")).bind (Json.get? "name")).bind Json.asStr? = some name

end OwnedMachine

section Names

theorem not_blank_of_objectName {w : List Char} (hw : w ∈ objectNameSchema.pattern.matches') :
    ∀ c ∈ w, Text.isWhitespace c = false := by
  have hall : ∀ c ∈ '.' :: '-' :: (charRange 'a' 'z' ++ charRange '0' '9'),
      (!Text.isWhitespace c) = true := List.all_eq_true.mp (by decide +kernel)
  refine forall_of_mem_separated (fun word hword c hc => ?_) (by decide) hw
  have hmem := (mem_bounded (List.subset_cons_self _ _)).mp hword |>.1 c hc
  simpa using hall c (List.mem_cons_of_mem _ hmem)

theorem trim_of_objectName {name : String} (h : objectNameSchema.Admits name) :
    Text.trim name = name ∧ name ≠ "" := by
  refine ⟨Text.Padded.trim_eq ⟨[], [], by simp, by simp, by simp⟩ (not_blank_of_objectName h.pattern), ?_⟩
  rintro rfl
  exact absurd h.min (by decide)

end Names

section Body

variable {sm : ScheduledMachine} {ns : String} {body : Json}

theorem IsMachineOf.members (h : IsMachineOf sm ns body) : ∃ members metadata labels,
    body = .obj members ∧ members.lookup "metadata" = some (.obj metadata) ∧
      metadata.lookup "namespace" = some (.str ns) ∧ metadata.lookup "labels" =
        some (mergeOwnedLabels labels sm.name sm.spec.clusterName).toJson ∧
      members.lookup "status" = none := by
  obtain ⟨version, bootstrapApiVersion, bootstrapKind, infraApiVersion, infraKind, uid, rfl⟩ := h
  exact ⟨_, _, _, rfl, rfl, rfl, rfl, rfl⟩

theorem IsMachineOf.fromValue (h : IsMachineOf sm ns body) (kube : KubeClient) (status : Option Json) :
    ∃ labels data, kube.fromValue (withStatus status body) = some ⟨some ns, some labels, data⟩ ∧
      labels.lookup scheduledMachineLabel = some sm.name ∧ data.get? "status" = status := by
  obtain ⟨members, metadata, merged, rfl, hmetadata, hns, hmerged, hstatus⟩ := h.members
  have hname : (mergeOwnedLabels merged sm.name sm.spec.clusterName).lookup scheduledMachineLabel =
      some sm.name := by
    rw [lookup_mergeOwnedLabels, if_neg (by decide), if_pos rfl]
  cases status with
  | none =>
    obtain ⟨labels, data, hvalue, hlabels, hdata⟩ :=
      kube.fromValue_obj members metadata ns _ hmetadata hns hmerged
    exact ⟨labels, data, hvalue, (hlabels _).trans hname, (hdata _ (by decide)).trans hstatus⟩
  | some status =>
    have hkept : (Json.insertMember "status" status members).lookup "metadata" = some (.obj metadata) :=
      (Json.lookup_insertMember_ne (by decide) status members).trans hmetadata
    obtain ⟨labels, data, hvalue, hlabels, hdata⟩ := kube.fromValue_obj _ metadata ns _ hkept hns hmerged
    refine ⟨labels, data, hvalue, (hlabels _).trans hname, (hdata _ (by decide)).trans ?_⟩
    exact Json.lookup_insertMember "status" status members

end Body

section Mappers

variable (kube : KubeClient) {machines : List OwnedMachine}

theorem OwnedMachine.exists_object (made : OwnedMachine) : ∃ object, made.object? kube = some object ∧
    object.labelled = some made.ref ∧
      object.nodeRefName =
        ((made.status.bind (Json.get? "nodeRef")).bind (Json.get? "name")).bind Json.asStr? := by
  obtain ⟨labels, data, hvalue, hlabel, hstatus⟩ := made.built.fromValue kube made.status
  obtain ⟨htrim, hempty⟩ := trim_of_objectName made.valid
  refine ⟨_, hvalue, ?_, ?_⟩
  · rw [OwnedMachine.ref, made.home]
    simp [DynamicObject.labelled, hlabel, htrim, hempty]
  · simp only [DynamicObject.nodeRefName, hstatus]
    cases made.status with
    | none => rfl
    | some status => simp [Option.bind_assoc]

theorem exists_objects (machines : List OwnedMachine) : ∃ objects,
    machines.mapM (OwnedMachine.object? kube) = some objects := by
  induction machines with
  | nil => exact ⟨[], rfl⟩
  | cons made machines ih =>
    obtain ⟨object, hobject, _⟩ := made.exists_object kube
    obtain ⟨objects, hobjects⟩ := ih
    exact ⟨object :: objects, by simp [List.mapM_cons, hobject, hobjects]⟩

theorem filterMap_objects {name : String} (hname : name ≠ "") {objects : List DynamicObject}
    (h : machines.mapM (OwnedMachine.object? kube) = some objects) :
    nodeToScheduledMachinesViaMachine (some name) objects = (machines.filter fun made =>
      ((made.status.bind (Json.get? "nodeRef")).bind (Json.get? "name")).bind Json.asStr? = some name).map
        OwnedMachine.ref := by
  rw [nodeToScheduledMachinesViaMachine, if_neg (by simpa using hname)]
  induction machines generalizing objects with
  | nil =>
    cases h
    rfl
  | cons made machines ih =>
    obtain ⟨object, hobject, hlabelled, hnode⟩ := made.exists_object kube
    obtain ⟨others, hothers⟩ := exists_objects kube machines
    obtain rfl : object :: others = objects := by simpa [List.mapM_cons, hobject, hothers] using h
    rw [List.filterMap_cons, List.filter_cons, ih hothers, ← hnode]
    cases hread : object.nodeRefName with
    | none => simp
    | some machineNodeName =>
      by_cases hsame : machineNodeName = name
      · subst hsame
        simp [hname, hlabelled]
      · simp [hsame]

end Mappers

section Program

variable {ns : String} {sm : ScheduledMachine}

theorem group_ne_of_validateApiGroup {apiVersion resourceType : String} {allowed : List String}
    (hallowed : capiGroup ∉ allowed) (h : validateApiGroup apiVersion allowed resourceType = .ok ()) :
    (parseApiVersion apiVersion).1 ≠ capiGroup := fun heq =>
  hallowed (heq ▸ group_mem_of_validateApiGroup h)

theorem uses_machineBody (s : Settings) (sm : ScheduledMachine) (ns : String) :
    (addMachineToCluster s sm ns).run.Uses fun q => ∀ version body,
      q = .create version (machineKey ns sm.name) body → IsMachineOf sm ns body := by
  have hother : ∀ {apiVersion kind version : String} {body : Json},
      (parseApiVersion apiVersion).1 ≠ capiGroup → ∀ version' body',
        Request.create version (objectKey apiVersion kind ns sm.name) body =
          .create version' (machineKey ns sm.name) body' → IsMachineOf sm ns body' := by
    intro apiVersion kind version body hgroup version' body' heq
    injection heq with _ hkey _
    exact absurd (congrArg ObjectKey.group hkey) hgroup
  unfold addMachineToCluster
  simp only
  refine uses_run_bind ((uses_run_ask _).mpr fun _ _ => (nomatch ·)) fun _ => ?_
  refine uses_checked _ fun bootstrapApiVersion _ => uses_checked _ fun bootstrapKind _ =>
    uses_checked _ fun infraApiVersion _ => uses_checked _ fun infraKind _ => ?_
  refine uses_checked _ fun _ _ => uses_checked _ fun _ _ => uses_checked _ fun _ hbootstrap =>
    uses_checked _ fun _ hinfra => ?_
  have hreview : ∀ apiVersion kind label, (ensureCanCreate ns apiVersion kind label).run.Uses
      fun q => ∀ version body, q = .create version (machineKey ns sm.name) body →
        IsMachineOf sm ns body := by
    intro apiVersion kind label
    refine (still_ensureCanCreate ns apiVersion kind label).uses.mono fun q hq version body heq => ?_
    subst heq
    cases hq
  refine uses_run_bind (hreview ..) fun _ => uses_run_bind (hreview ..) fun _ =>
    uses_run_bind (hreview ..) fun _ => ?_
  refine uses_checked _ fun _ _ => uses_checked _ fun _ _ => uses_checked _ fun _ _ =>
    uses_checked _ fun uid _ => ?_
  refine uses_run_bind (uses_create (hother (group_ne_of_validateApiGroup (by decide) hbootstrap)))
    fun _ => uses_run_bind (uses_create (hother (group_ne_of_validateApiGroup (by decide) hinfra)))
    fun _ => uses_create ?_
  intro version body heq
  injection heq with _ _ hbody
  exact ⟨_, _, _, _, _, _, hbody.symm⟩

end Program

/--
The Machine that is created for a resource leads back to it whatever the labels of the template are,
and a Node leads to the owners of the Machines whose status names it, to each once.
-/
theorem created_machines_lead_back (kube : KubeClient) :
    (∀ (s : Settings) (sm : ScheduledMachine) (ns : String),
      (addMachineToCluster s sm ns).run.Uses fun q => ∀ version body,
        q = .create version (machineKey ns sm.name) body → IsMachineOf sm ns body) ∧
    (∀ made : OwnedMachine, ∃ object, made.object? kube = some object ∧
      machineToScheduledMachine object = [made.ref]) ∧
    ∀ (machines : List OwnedMachine) (nodeName : Option String),
      (machines.map OwnedMachine.ref).Nodup → ∃ objects,
        machines.mapM (OwnedMachine.object? kube) = some objects ∧
          (nodeToScheduledMachinesViaMachine nodeName objects).Nodup ∧
          ∀ ref, ref ∈ nodeToScheduledMachinesViaMachine nodeName objects ↔
            ∃ made ∈ machines, made.ref = ref ∧ made.NamesNode nodeName := by
  refine ⟨uses_machineBody, fun made => ?_, fun machines nodeName hdistinct => ?_⟩
  · obtain ⟨object, hobject, hlabelled, _⟩ := made.exists_object kube
    exact ⟨object, hobject, by rw [machineToScheduledMachine, hlabelled]; rfl⟩
  · obtain ⟨objects, hobjects⟩ := exists_objects kube machines
    refine ⟨objects, hobjects, ?_⟩
    by_cases hname : ∃ name, nodeName = some name ∧ name ≠ ""
    · obtain ⟨name, rfl, hname⟩ := hname
      rw [filterMap_objects kube hname hobjects]
      refine ⟨hdistinct.sublist (List.filter_sublist.map _), fun ref => ?_⟩
      simp [OwnedMachine.NamesNode, hname, and_assoc, and_comm]
    · have hempty : nodeToScheduledMachinesViaMachine nodeName objects = [] := by
        unfold nodeToScheduledMachinesViaMachine
        split
        · rfl
        · rename_i name
          rw [if_pos]
          by_contra hne
          exact hname ⟨name, rfl, by simpa using hne⟩
      rw [hempty]
      refine ⟨List.nodup_nil, fun ref => ⟨(nomatch ·), ?_⟩⟩
      rintro ⟨made, _, _, name, heq, hne, _⟩
      exact absurd ⟨name, heq, hne⟩ hname

section Sample

namespace DynamicObject

/-- An optional text among the members of an object: absent and null are the same, another type is not. -/
def textMember (members : List (String × Json)) (key : String) : Option (Option String) :=
  match members.lookup key with
  | none | some .null => some none
  | some (.str s) => some (some s)
  | some _ => none

def stringMembers (members : List (String × Json)) : Option StringMap :=
  members.mapM fun member => member.2.asStr?.map fun value => (member.1, value)

def mapMember (members : List (String × Json)) (key : String) : Option (Option StringMap) :=
  match members.lookup key with
  | none | some .null => some none
  | some (.obj entries) => (stringMembers entries).map some
  | some _ => none

/-- `serde_json::from_value`. -/
def fromValue (value : Json) : Option DynamicObject := do
  let members ← value.asObject?
  let metadata ← ((members.lookup "metadata").getD (.obj [])).asObject?
  return {
    ns := ← textMember metadata "namespace"
    labels := ← mapMember metadata "labels"
    data := .obj (members.filter fun member => !(["apiVersion", "kind", "metadata"].contains member.1)) }

end DynamicObject

theorem stringMembers_toJson (m : StringMap) :
    DynamicObject.stringMembers (m.map fun (k, v) => (k, Json.str v)) = some m := by
  unfold DynamicObject.stringMembers
  induction m with
  | nil => rfl
  | cons entry rest ih =>
    rw [List.map_cons, List.mapM_cons, ih]
    rfl

theorem fromValue_eq_some {members metadata : List (String × Json)} {ns : String}
    {labels : StringMap} (hmetadata : members.lookup "metadata" = some (.obj metadata))
    (hns : metadata.lookup "namespace" = some (.str ns))
    (hlabels : metadata.lookup "labels" = some labels.toJson) :
    DynamicObject.fromValue (.obj members) = some ⟨some ns, some labels,
      .obj (members.filter fun member => !(["apiVersion", "kind", "metadata"].contains member.1))⟩ := by
  have htext : DynamicObject.textMember metadata "namespace" = some (some ns) := by
    rw [DynamicObject.textMember, hns]
  have hmap : DynamicObject.mapMember metadata "labels" = some (some labels) := by
    rw [DynamicObject.mapMember, hlabels]
    exact congrArg (Option.map some) (stringMembers_toJson labels)
  rw [DynamicObject.fromValue, Json.asObject?, Option.bind_eq_bind, Option.bind_some, hmetadata]
  simp only [Option.getD_some, Json.asObject?, Option.bind_eq_bind, Option.bind_some, htext, hmap]
  rfl

theorem lookup_filter_key {members : List (String × Json)} {p : String → Bool} {key : String}
    (hkey : p key = true) :
    (members.filter fun member => p member.1).lookup key = members.lookup key := by
  induction members with
  | nil => rfl
  | cons member members ih =>
    obtain ⟨k, v⟩ := member
    rw [List.filter_cons, List.lookup_cons]
    by_cases heq : key = k
    · subst heq
      simp [hkey]
    · have hbeq : (key == k) = false := beq_false_of_ne heq
      rw [hbeq]
      split
      · rw [List.lookup_cons, hbeq]
        exact ih
      · exact ih

def sampleKube : KubeClient where
  fromValue := DynamicObject.fromValue
  fromValue_obj _ _ _ labels hmetadata hns hlabels :=
    ⟨labels, _, fromValue_eq_some hmetadata hns hlabels, fun _ => rfl, fun key hkey =>
      lookup_filter_key (p := fun key => !(["apiVersion", "kind", "metadata"].contains key))
        (by simpa using hkey)⟩

theorem objectName_of_word {name : String} (hlength : 1 ≤ name.length ∧ name.length ≤ 253)
    (hword : (name.toList.all fun c =>
      ('-' :: (charRange 'a' 'z' ++ charRange '0' '9')).contains c) = true)
    (hfirst : ∃ c ∈ charRange 'a' 'z' ++ charRange '0' '9', name.toList.head? = some c)
    (hlast : ∃ c ∈ charRange 'a' 'z' ++ charRange '0' '9', name.toList.getLast? = some c) :
    objectNameSchema.Admits name := by
  refine ⟨hlength.1, hlength.2, mem_comp.mpr ⟨name.toList, ?_, [], Language.nil_mem_kstar _, ?_⟩⟩
  · refine (mem_bounded (List.subset_cons_self _ _)).mpr ⟨fun c hc => ?_, hfirst, hlast⟩
    exact List.contains_iff_mem.mp (List.all_eq_true.mp hword c hc)
  · exact List.append_nil _

def sampleOwnedBy (name node : String) (valid : objectNameSchema.Admits name) : OwnedMachine where
  owner := { sampleWorld.machine with name }
  ns := "default"
  body := machineBody sampleSpec "v1beta1" "bootstrap.cluster.x-k8s.io/v1beta1" "K0sWorkerConfig"
    "infrastructure.cluster.x-k8s.io/v1beta1" "RemoteMachine" name "uid" "default"
  status := some (.obj [("nodeRef", .obj [("name", .str node)])])
  home := rfl
  valid := valid
  built := ⟨_, _, _, _, _, _, rfl⟩

def sampleOwnedMachine : OwnedMachine := sampleOwnedBy "spot" "node-1"
  (objectName_of_word (by decide) (by decide +kernel) ⟨'s', by decide +kernel, rfl⟩
    ⟨'t', by decide +kernel, rfl⟩)

def sampleOtherMachine : OwnedMachine := sampleOwnedBy "batch" "node-2"
  (objectName_of_word (by decide) (by decide +kernel) ⟨'b', by decide +kernel, rfl⟩
    ⟨'h', by decide +kernel, rfl⟩)

/-- Of two Machines, the one on the Node leads back to its owner and the other one does not. -/
theorem sampleOwnedMachine_leads_back : ∃ objects,
    [sampleOwnedMachine, sampleOtherMachine].mapM (OwnedMachine.object? sampleKube) = some objects ∧
      ∀ ref, ref ∈ nodeToScheduledMachinesViaMachine (some "node-1") objects ↔
        ref = ⟨"spot", some "default"⟩ := by
  obtain ⟨objects, hobjects, _, hmem⟩ := (created_machines_lead_back sampleKube).2.2
    [sampleOwnedMachine, sampleOtherMachine] (some "node-1") (by decide)
  refine ⟨objects, hobjects, fun ref => (hmem ref).trans ⟨?_, ?_⟩⟩
  · rintro ⟨made, hmade, rfl, name, hname, -, hstatus⟩
    cases hname
    rcases List.mem_pair.mp hmade with rfl | rfl
    · rfl
    · exact absurd hstatus (by decide)
  · rintro rfl
    exact ⟨sampleOwnedMachine, List.mem_cons_self, rfl, "node-1", rfl, by decide, rfl⟩

end Sample

end FiveSpot.Machine
