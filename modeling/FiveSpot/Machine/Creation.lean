import FiveSpot.Effects.Trace
import FiveSpot.Machine.Steps

/-!
# What is created for a resource

Bootstrap, infrastructure and Machine object are built from untrusted parts of the specification.
Every check comes before the first create, and what the checks let through can set neither the
identity of an object nor a label that is the controller's.
-/

namespace FiveSpot.Machine

set_option autoImplicit false

open Effects Effects.Prog

def metadataOf (key : String) (body : Json) : Option Json :=
  (body.get? "metadata").bind (Json.get? key)

def labelOf (key : String) (body : Json) : Option Json :=
  (metadataOf "labels" body).bind (Json.get? key)

def annotationOf (key : String) (body : Json) : Option Json :=
  (metadataOf "annotations" body).bind (Json.get? key)

def EmbeddedResource.userText (r : EmbeddedResource) (field key : String) : Option String :=
  ((r.metadata field).bind (Json.get? key)).bind Json.asStr?

section Labels

theorem not_reserved_of_validateLabels {labels : StringMap} {field key : String}
    (hv : validateLabels labels field = .ok ()) (hkey : (labels.lookup key).isSome = true) :
    reservedPrefixOf key = none := by
  unfold validateLabels at hv
  split at hv
  · rename_i hnone
    obtain ⟨value, hvalue⟩ := Option.isSome_iff_exists.mp hkey
    obtain ⟨before, after, rfl, _⟩ := List.lookup_eq_some_iff.mp hvalue
    have hmem := List.findSome?_eq_none_iff.mp hnone (key, value) (by simp)
    simpa using hmem
  · cases hv

theorem reserved_scheduledMachineLabel : (reservedPrefixOf scheduledMachineLabel).isSome = true := by
  decide

theorem reserved_capiClusterNameLabel : (reservedPrefixOf capiClusterNameLabel).isSome = true := by
  decide

theorem lookup_mergeOwnedLabels (labels : StringMap) (name clusterName key : String) :
    (mergeOwnedLabels labels name clusterName).lookup key =
      if key = capiClusterNameLabel then some clusterName
      else if key = scheduledMachineLabel then some name
      else labels.lookup key := by
  rw [mergeOwnedLabels, StringMap.lookup_insert, StringMap.lookup_insert]

theorem lookup_merged_of_user {labels : StringMap} {field name clusterName key value : String}
    (hv : validateLabels labels field = .ok ()) (hkey : labels.lookup key = some value) :
    (mergeOwnedLabels labels name clusterName).lookup key = some value := by
  have hsome : (labels.lookup key).isSome = true := by simp [hkey]
  have hfree := not_reserved_of_validateLabels hv hsome
  have hcluster : key ≠ capiClusterNameLabel := by
    rintro rfl
    have hreserved := reserved_capiClusterNameLabel
    rw [hfree] at hreserved
    cases hreserved
  have hmachine : key ≠ scheduledMachineLabel := by
    rintro rfl
    have hreserved := reserved_scheduledMachineLabel
    rw [hfree] at hreserved
    cases hreserved
  rw [lookup_mergeOwnedLabels, if_neg hcluster, if_neg hmachine, hkey]

end Labels

/-- An object that is confined to the resource: its identity and the tracking labels are the
controller's, the user's labels and annotations are all there, and no other key is reserved. -/
structure Confined (r : ScheduledMachine) (groups : List String)
    (labels annotations : String → Option String) (k : ObjectKey) (body : Json) : Prop where
  group : k.group ∈ groups
  target : k.name = r.name ∧ r.ns = some k.ns
  name : metadataOf "name" body = some (.str r.name)
  ns : metadataOf "namespace" body = r.ns.map .str
  scheduledMachine : labelOf scheduledMachineLabel body = some (.str r.name)
  clusterName : labelOf capiClusterNameLabel body = some (.str r.spec.clusterName)
  labels : ∀ key value, labels key = some value → labelOf key body = some (.str value)
  annotations : ∀ key value, annotations key = some value →
    annotationOf key body = some (.str value)
  noReservedLabel : ∀ key, (labelOf key body).isSome = true →
    key = scheduledMachineLabel ∨ key = capiClusterNameLabel ∨ reservedPrefixOf key = none
  noReservedAnnotation : ∀ key, (annotationOf key body).isSome = true → reservedPrefixOf key = none

inductive Posted (r : ScheduledMachine) (k : ObjectKey) (body : Json) : Prop where
  | bootstrap : Confined r allowedBootstrapApiGroups (r.spec.bootstrapSpec.userText "labels")
      (r.spec.bootstrapSpec.userText "annotations") k body →
      body.get? "spec" = some (r.spec.bootstrapSpec.spec.getD .null) → Posted r k body
  | infrastructure : Confined r allowedInfrastructureApiGroups
      (r.spec.infrastructureSpec.userText "labels")
      (r.spec.infrastructureSpec.userText "annotations") k body →
      body.get? "spec" = some (r.spec.infrastructureSpec.spec.getD .null) → Posted r k body
  | machine : Confined r [capiGroup]
      (fun key => r.spec.machineTemplate.bind fun t => t.labels.lookup key)
      (fun key => r.spec.machineTemplate.bind fun t => t.annotations.lookup key) k body →
      Posted r k body

/-- The API server has said that objects of a kind may be created. -/
def Reviewed (h : Log) (ns apiVersion kind : String) : Prop :=
  ∃ status : AccessStatus, ⟨.accessReview (parseApiVersion apiVersion).1
    (parseApiVersion apiVersion).2 (resourcePlural kind) ns, .ok status⟩ ∈ h ∧ status.allowed = true

/-- An embedded object of an allowed group that may be created. -/
def Admissible (h : Log) (ns : String) (embedded : EmbeddedResource) (groups : List String)
    (resourceType : String) : Prop :=
  ∃ apiVersion kind, embedded.apiVersion = some apiVersion ∧ embedded.kind = some kind ∧
    validateApiGroup apiVersion groups resourceType = .ok () ∧ Reviewed h ns apiVersion kind

/-- Every check of `add_machine_to_cluster` has been passed. -/
structure Vetted (s : Settings) (r : ScheduledMachine) (ns : String) (h : Log) : Prop where
  clusterName : validateClusterName r.spec.clusterName = .ok ()
  killIfCommands : validateKillIfCommands r.spec.killIfCommands = .ok ()
  bootstrap : Admissible h ns r.spec.bootstrapSpec allowedBootstrapApiGroups "bootstrap"
  infrastructure :
    Admissible h ns r.spec.infrastructureSpec allowedInfrastructureApiGroups "infrastructure"
  machine : Reviewed h ns (capiGroup ++ "/" ++ machineApiVersionFor s.capiMachineApiVersion
    r.spec.bootstrapSpec.apiVersion) "Machine"
  template : validateTemplate r.spec.machineTemplate = .ok ()
  bootstrapMetadata : validateEmbeddedMetadata r.spec.bootstrapSpec "spec.bootstrapSpec" = .ok ()
  infrastructureMetadata :
    validateEmbeddedMetadata r.spec.infrastructureSpec "spec.infrastructureSpec" = .ok ()
  uid : r.uid.isSome = true

/-- A create comes after every check and is of one of the three objects. -/
structure Posting (s : Settings) (r : ScheduledMachine) (ns : String) (h : Log) (q : Request) :
    Prop where
  create : ∀ version k body, q = .create version k body → Vetted s r ns h ∧ Posted r k body

section Bodies

variable {r : ScheduledMachine} {ns : String}

theorem confined_of_metadata {groups : List String} {userLabels userAnnotations : String → Option String}
    {labels annotations : StringMap} {field field' : String} {k : ObjectKey} {body : Json}
    (hgroup : k.group ∈ groups) (htarget : k.name = r.name ∧ r.ns = some k.ns)
    (hname : metadataOf "name" body = some (.str r.name))
    (hns : metadataOf "namespace" body = some (.str k.ns))
    (hlabels : metadataOf "labels" body =
      some (mergeOwnedLabels labels r.name r.spec.clusterName).toJson)
    (hannotations : metadataOf "annotations" body = some annotations.toJson)
    (hvl : validateLabels labels field = .ok ())
    (hva : validateLabels annotations field' = .ok ())
    (hul : ∀ key value, userLabels key = some value → labels.lookup key = some value)
    (hua : ∀ key value, userAnnotations key = some value → annotations.lookup key = some value) :
    Confined r groups userLabels userAnnotations k body := by
  have hlabel : ∀ key, labelOf key body =
      ((mergeOwnedLabels labels r.name r.spec.clusterName).lookup key).map .str := by
    intro key
    simp [labelOf, hlabels]
  have hnoted : ∀ key, annotationOf key body = (annotations.lookup key).map .str := by
    intro key
    simp [annotationOf, hannotations]
  refine ⟨hgroup, htarget, hname, by rw [hns, htarget.2]; rfl, ?_, ?_, fun key value hu => ?_,
    fun key value hu => ?_, fun key hkey => ?_, fun key hkey => ?_⟩
  · rw [hlabel, lookup_mergeOwnedLabels, if_neg (by decide), if_pos rfl]
    rfl
  · rw [hlabel, lookup_mergeOwnedLabels, if_pos rfl]
    rfl
  · rw [hlabel, lookup_merged_of_user hvl (hul key value hu)]
    rfl
  · rw [hnoted, hua key value hu]
    rfl
  · rw [hlabel, lookup_mergeOwnedLabels, Option.isSome_map] at hkey
    by_cases hcluster : key = capiClusterNameLabel
    · exact Or.inr (Or.inl hcluster)
    by_cases hmachine : key = scheduledMachineLabel
    · exact Or.inl hmachine
    rw [if_neg hcluster, if_neg hmachine] at hkey
    exact Or.inr (Or.inr (not_reserved_of_validateLabels hvl hkey))
  · rw [hnoted, Option.isSome_map] at hkey
    exact not_reserved_of_validateLabels hva hkey

theorem lookup_of_userText {embedded : EmbeddedResource} {field key value : String}
    (h : embedded.userText field key = some value) :
    (Json.stringMap (embedded.metadata field)).lookup key = some value := by
  obtain ⟨json, hjson, hstr⟩ := Option.bind_eq_some_iff.mp h
  refine Json.lookup_stringMap ?_
  rw [hjson]
  cases json with
  | str s =>
    cases hstr
    rfl
  | _ => cases hstr

theorem labels_of_validateEmbeddedMetadata {embedded : EmbeddedResource} {field : String}
    (hv : validateEmbeddedMetadata embedded field = .ok ()) :
    validateLabels embedded.metadataLabels (field ++ ".metadata.labels") = .ok () ∧
      validateLabels embedded.metadataAnnotations (field ++ ".metadata.annotations") = .ok () := by
  unfold validateEmbeddedMetadata at hv
  split at hv
  · cases hv
  · split at hv
    · cases hv
    · obtain ⟨_, hlabels, hannotations⟩ := except_bind_eq_ok.mp hv
      exact ⟨hlabels, hannotations⟩

theorem confined_embedded {embedded : EmbeddedResource} {groups : List String}
    {field apiVersion kind : String} (hns : r.ns = some ns)
    (hgroup : (parseApiVersion apiVersion).1 ∈ groups)
    (hv : validateEmbeddedMetadata embedded field = .ok ()) :
    Confined r groups (embedded.userText "labels") (embedded.userText "annotations")
      (objectKey apiVersion kind ns r.name)
      (embeddedBody embedded apiVersion kind r.name ns r.spec.clusterName) := by
  obtain ⟨hlabels, hannotations⟩ := labels_of_validateEmbeddedMetadata hv
  exact confined_of_metadata hgroup ⟨rfl, hns⟩ rfl rfl rfl rfl hlabels hannotations
    (fun _ _ => lookup_of_userText) fun _ _ => lookup_of_userText

theorem confined_machine (s : Settings) {bootstrapApiVersion bootstrapKind infraApiVersion infraKind
    uid : String} (hns : r.ns = some ns) (hv : validateTemplate r.spec.machineTemplate = .ok ()) :
    Confined r [capiGroup] (fun key => r.spec.machineTemplate.bind fun t => t.labels.lookup key)
      (fun key => r.spec.machineTemplate.bind fun t => t.annotations.lookup key)
      (objectKey (capiGroup ++ "/" ++
        machineApiVersionFor s.capiMachineApiVersion (some bootstrapApiVersion)) "Machine" ns r.name)
      (machineBody r.spec (machineApiVersionFor s.capiMachineApiVersion (some bootstrapApiVersion))
        bootstrapApiVersion bootstrapKind infraApiVersion infraKind r.name uid ns) := by
  have hgroup := congrArg ObjectKey.group (objectKey_machine s (some bootstrapApiVersion) ns r.name)
  have hchecked : validateLabels (r.spec.machineTemplate.elim [] fun t => t.labels)
        "machineTemplate.labels" = .ok () ∧
      validateLabels (r.spec.machineTemplate.elim [] fun t => t.annotations)
        "machineTemplate.annotations" = .ok () := by
    cases htemplate : r.spec.machineTemplate with
    | none => exact ⟨rfl, rfl⟩
    | some template =>
      rw [htemplate] at hv
      obtain ⟨_, hlabels, hannotations⟩ := except_bind_eq_ok.mp hv
      exact ⟨hlabels, hannotations⟩
  have hlookup : ∀ (f : MachineTemplateSpec → StringMap) (key value : String),
      (r.spec.machineTemplate.bind fun t => (f t).lookup key) = some value →
        (r.spec.machineTemplate.elim [] f).lookup key = some value := by
    intro f key value h
    obtain ⟨template, htemplate, hkey⟩ := Option.bind_eq_some_iff.mp h
    rw [htemplate]
    exact hkey
  refine confined_of_metadata ?_ ⟨rfl, hns⟩ rfl rfl rfl rfl hchecked.1 hchecked.2
    (hlookup fun t => t.labels) (hlookup fun t => t.annotations)
  rw [hgroup]
  exact List.mem_singleton.mpr rfl

end Bodies

section Program

variable {s : Settings} {r : ScheduledMachine} {ns : String} {h : Log}

theorem Reviewed.after {h' : Log} {apiVersion kind : String} (hr : Reviewed h ns apiVersion kind)
    (hh : ∀ x ∈ h, x ∈ h') : Reviewed h' ns apiVersion kind := by
  obtain ⟨status, hmem, hallowed⟩ := hr
  exact ⟨status, hh _ hmem, hallowed⟩

theorem Admissible.after {h' : Log} {embedded : EmbeddedResource} {groups : List String}
    {resourceType : String} (ha : Admissible h ns embedded groups resourceType)
    (hh : ∀ x ∈ h, x ∈ h') : Admissible h' ns embedded groups resourceType := by
  obtain ⟨apiVersion, kind, hversion, hkind, hgroup, hr⟩ := ha
  exact ⟨apiVersion, kind, hversion, hkind, hgroup, hr.after hh⟩

theorem Vetted.after {h' : Log} (hv : Vetted s r ns h) (hh : ∀ x ∈ h, x ∈ h') : Vetted s r ns h' :=
  { hv with
    bootstrap := hv.bootstrap.after hh
    infrastructure := hv.infrastructure.after hh
    machine := hv.machine.after hh }

abbrev Extends (h h' : Log) : Prop := History.Grown (fun _ => True) h h'

theorem keeps_reviewed {apiVersion kind label : String} :
    Keeps (Posting s r ns) (ensureCanCreate ns apiVersion kind label) h
      (fun _ h' => Extends h h' ∧ Reviewed h' ns apiVersion kind) fun _ _ => True := by
  refine keeps_ask_bind ⟨fun _ _ _ heq => by cases heq⟩ fun x => ?_
  cases x with
  | error e => exact ⟨trivial⟩
  | ok status =>
    refine (keeps_pure (Q := fun a h' => a = status ∧ h' = _) ⟨rfl, rfl⟩).bind
      (fun a h' ha => ?_) fun _ _ hE => hE
    obtain ⟨rfl, rfl⟩ := ha
    split
    · rename_i hallowed
      exact ⟨.cons (.refl h) trivial _, _, List.mem_cons_self, hallowed⟩
    · exact ⟨trivial⟩

theorem keeps_posted {context apiVersion kind name : String} {body : Json} (hv : Vetted s r ns h)
    (hp : Posted r (objectKey apiVersion kind ns name) body) :
    Keeps (Posting s r ns) (createDynamicResource context apiVersion kind ns name body) h
      (fun _ h' => Extends h h') fun _ _ => True := by
  have hposting : Posting s r ns h (.create (parseApiVersion apiVersion).2
      (objectKey apiVersion kind ns name) body) := by
    refine ⟨fun version k body' heq => ?_⟩
    cases heq
    exact ⟨hv, hp⟩
  refine keeps_ask_bind hposting fun x => ?_
  have hgrown : ∀ x, Extends h (⟨.create (parseApiVersion apiVersion).2
      (objectKey apiVersion kind ns name) body, x⟩ :: h) := fun x => .cons (.refl h) trivial x
  cases x with
  | ok _ => exact ⟨hgrown _⟩
  | error e =>
    simp only
    split
    · exact ⟨hgrown _⟩
    · exact ⟨trivial⟩

theorem keeps_addMachine_posting (hns : r.ns = some ns) :
    Keeps (Posting s r ns) (addMachineToCluster s r ns) h (fun _ _ => True) fun _ _ => True := by
  refine keeps_ask_bind ⟨fun _ _ _ heq => by cases heq⟩ fun _ => ?_
  refine keeps_checked _ (fun bootstrapApiVersion hba => ?_) fun _ => trivial
  refine keeps_checked _ (fun bootstrapKind hbk => ?_) fun _ => trivial
  refine keeps_checked _ (fun infraApiVersion hia => ?_) fun _ => trivial
  refine keeps_checked _ (fun infraKind hik => ?_) fun _ => trivial
  refine keeps_checked _ (fun _ hcluster => ?_) fun _ => trivial
  refine keeps_checked _ (fun _ hcommands => ?_) fun _ => trivial
  refine keeps_checked _ (fun _ hbg => ?_) fun _ => trivial
  refine keeps_checked _ (fun _ hig => ?_) fun _ => trivial
  replace hba := required_eq_ok hba
  replace hbk := required_eq_ok hbk
  replace hia := required_eq_ok hia
  replace hik := required_eq_ok hik
  refine keeps_reviewed.then fun _ h₁ hb => ?_
  refine keeps_reviewed.then fun _ h₂ hi => ?_
  refine keeps_reviewed.then fun _ h₃ hm => ?_
  refine keeps_checked _ (fun _ htemplate => ?_) fun _ => trivial
  refine keeps_checked _ (fun _ hbmeta => ?_) fun _ => trivial
  refine keeps_checked _ (fun _ himeta => ?_) fun _ => trivial
  refine keeps_checked _ (fun uid huid => ?_) fun _ => trivial
  have hvetted : Vetted s r ns h₃ :=
    { clusterName := hcluster
      killIfCommands := hcommands
      bootstrap := ⟨_, _, hba, hbk, hbg, hb.2.after fun _ hx => hm.1.mem (hi.1.mem hx)⟩
      infrastructure := ⟨_, _, hia, hik, hig, hi.2.after fun _ => hm.1.mem⟩
      machine := hba ▸ hm.2
      template := htemplate
      bootstrapMetadata := hbmeta
      infrastructureMetadata := himeta
      uid := by simp [required_eq_ok huid] }
  refine (keeps_posted hvetted (.bootstrap
    (confined_embedded hns (group_mem_of_validateApiGroup hbg) hbmeta) rfl)).then fun _ h₄ hg₄ => ?_
  replace hvetted := hvetted.after fun _ => hg₄.mem
  refine (keeps_posted hvetted (.infrastructure
    (confined_embedded hns (group_mem_of_validateApiGroup hig) himeta) rfl)).then fun _ h₅ hg₅ => ?_
  replace hvetted := hvetted.after fun _ => hg₅.mem
  exact (keeps_posted hvetted (.machine (confined_machine s hns htemplate))).weaken
    (fun _ _ _ => trivial) fun _ _ _ => trivial

/-- Nothing is created before every check has been passed, and all that is created is confined to the
resource. -/
theorem creation_is_confined (s : Settings) (r : ScheduledMachine) (ns : String)
    (hns : r.ns = some ns) :
    (addMachineToCluster s r ns).run.Meets (fun _ _ => True) (Posting s r ns)
      (fun _ _ => True) [] :=
  (keeps_addMachine_posting hns).meets.mono fun _ _ _ => trivial

def createdBootstrapKey : ObjectKey :=
  ⟨"bootstrap.cluster.x-k8s.io", "k0sworkerconfigs", "default", "spot"⟩

def createdInfrastructureKey : ObjectKey :=
  ⟨"infrastructure.cluster.x-k8s.io", "remotemachines", "default", "spot"⟩

def sampleReviews : Trace Request Response :=
  [⟨.info .creatingCapiResources, ()⟩,
    ⟨.accessReview "bootstrap.cluster.x-k8s.io" "v1beta1" "k0sworkerconfigs" "default",
      .ok ⟨true, none⟩⟩,
    ⟨.accessReview "infrastructure.cluster.x-k8s.io" "v1beta1" "remotemachines" "default",
      .ok ⟨true, none⟩⟩,
    ⟨.accessReview capiGroup "v1beta1" "machines" "default", .ok ⟨true, none⟩⟩]

theorem sample_creation_is_confined :
    sampleWorld.machine.ns = some "default" ∧ ∃ bootstrap infrastructure machine,
      (addMachineToCluster sampleWorld.settings sampleWorld.machine "default").run.Performs
        (sampleReviews ++ [⟨.create "v1beta1" createdBootstrapKey bootstrap, .ok ()⟩,
          ⟨.create "v1beta1" createdInfrastructureKey infrastructure, .ok ()⟩,
          ⟨.create "v1beta1" (machineKey "default" "spot") machine, .ok ()⟩]) (.ok ()) ∧
      Vetted sampleWorld.settings sampleWorld.machine "default" sampleReviews.reverse ∧
      Posted sampleWorld.machine createdBootstrapKey bootstrap ∧
      Posted sampleWorld.machine createdInfrastructureKey infrastructure ∧
      Posted sampleWorld.machine (machineKey "default" "spot") machine := by
  have hmeets := creation_is_confined sampleWorld.settings sampleWorld.machine "default" rfl
  -- the three reviews are answered, then the first two creates
  have hfirst := (((hmeets.2 () trivial).2 (.ok ⟨true, none⟩) trivial).2 (.ok ⟨true, none⟩)
    trivial).2 (.ok ⟨true, none⟩) trivial
  have hsecond := hfirst.2 (.ok ()) trivial
  have hthird := hsecond.2 (.ok ()) trivial
  refine ⟨rfl, _, _, _, ⟨_, _, rfl, _, _, rfl, _, _, rfl, _, _, rfl, _, _, rfl, _, _, rfl, _, _, rfl,
    rfl, rfl⟩, (hfirst.1.create _ _ _ rfl).1, ?_, ?_, ?_⟩
  · exact (hfirst.1.create _ _ _ rfl).2
  · exact (hsecond.1.create _ _ _ rfl).2
  · exact (hthird.1.create _ _ _ rfl).2

end Program

end FiveSpot.Machine
