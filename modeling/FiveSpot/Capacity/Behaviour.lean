import FiveSpot.Effects.Invariant
import FiveSpot.Capacity.Reconcile

/-!
# What a capacity reconcile may do

The calls of one reconcile, judged against the answers it has had. What it has found out is read off
that history: the object it was shown, and whether it was shown a conflicting machine.
-/

namespace FiveSpot.Capacity

set_option autoImplicit false

open Effects

/-- The calls of the reconcile in flight with their answers, the latest first. -/
abbrev Log := History Request Response

def Request.reads : Request → Bool
  | .applyObject _ _ _ _ => false
  | .patchStatus _ => false
  | _ => true

/-- The call asks neither for the owned object nor for the machines. -/
def Request.aside : Request → Bool
  | .getObject _ _ _ => false
  | .listMachines _ => false
  | _ => true

def Request.looksUp (q : Request) : Bool := q.reads && q.aside

def Request.patches : Request → Bool
  | .patchStatus _ => true
  | _ => false

def shownObject : Sigma Response → Option (Option Object)
  | ⟨.getObject _ _ _, .ok object⟩ => some object
  | _ => none

def objectSeen (h : Log) : Option (Option Object) := h.findSome? shownObject

def showsConflict (c : ScheduledCapacity) : Sigma Response → Bool
  | ⟨.listMachines _, .ok machines⟩ => c.spec.nodeName.any fun node => machines.any (governsNode node)
  | _ => false

/-- The reconcile was shown a machine that governs the node of the resource. -/
def conflictSeen (c : ScheduledCapacity) (h : Log) : Bool := h.any (showsConflict c)

/-- The reconcile got as far as asking for the object, and none stands in its way. -/
def foundWritable (c : ScheduledCapacity) (h : Log) : Bool :=
  match objectSeen h with
  | none => false
  | some none => true
  | some (some object) => isOwnedBy object c

def Untouched (h : Log) : Prop := ∀ x ∈ h, x.1.reads = true

def Unpatched (h : Log) : Prop := ∀ x ∈ h, x.1.patches = false

/-- Group and version as the references of a resource are split. -/
def groupVersion (apiVersion : String) : String × String :=
  (Text.splitOnce '/' apiVersion).getD ("", apiVersion)

/-- What the discovery of the provider's kind or the read of the provider came back with. -/
inductive Heard (c : ScheduledCapacity) (h : Log) : SpotScheduleVerdict → Prop where
  | noKind {e : KubeError} {reason message : String} :
      ⟨.pinnedKind (groupVersion c.spec.schedule.apiVersion).1
        (groupVersion c.spec.schedule.apiVersion).2 c.spec.schedule.kind, .error e⟩ ∈ h →
      Heard c h (.unresolved reason message)
  | failed {ns reason message : String} {e : KubeError} : c.ns = some ns →
      ⟨.getProvider ns c.spec.schedule.name, .error e⟩ ∈ h →
      Heard c h (.unresolved reason message)
  | noObject {ns reason message : String} : c.ns = some ns →
      ⟨.getProvider ns c.spec.schedule.name, .ok none⟩ ∈ h →
      Heard c h (.unresolved reason message)
  | object {ns : String} {object : Json} : c.ns = some ns →
      ⟨.getProvider ns c.spec.schedule.name, .ok (some object)⟩ ∈ h →
      Heard c h (verdictFromStatus (object.get? "status"))

/-- The target kind is in an allowed group and served as `plural`, and the object of this name is
absent or the resource's own. -/
structure Located (c : ScheduledCapacity) (h : Log) (plural : String) : Prop where
  allowed : (groupVersion c.spec.target.apiVersion).1 ∈ allowedCapacityTargetApiGroups
  served : ⟨.pinnedKind (groupVersion c.spec.target.apiVersion).1
    (groupVersion c.spec.target.apiVersion).2 c.spec.target.kind, .ok plural⟩ ∈ h
  shown : ∃ ns existing, c.ns = some ns ∧ ⟨.getObject plural ns c.name, .ok existing⟩ ∈ h ∧
    ∀ object, existing = some object → isOwnedBy object c = true

/-- The resolution of the target agrees with the answers. -/
structure Resolves (c : ScheduledCapacity) (h : Log) (target : TargetResolution) : Prop where
  writable : target.writable = foundWritable c h
  apiResource : target.apiResource.isSome = target.writable
  object : target.writable = true → objectSeen h = some target.object
  located : ∀ plural, target.apiResource = some plural → Located c h plural

/-- The observation agrees with the answers. -/
structure Informed (c : ScheduledCapacity) (h : Log) (o : Observation) : Prop where
  verdict : Heard c h o.verdict
  target : Resolves c h o.target
  drained : o.observedDrained = readDrained o.target c.drainedPath
  conflict : o.conflict = conflictSeen c h

def decision (c : ScheduledCapacity) (o : Observation) : CapacityDecision :=
  decide (decisionInput c o)

/-- The value the status is to claim. -/
def recordedValue (c : ScheduledCapacity) (o : Observation) : Option Int :=
  (decision c o).write.or c.writtenValue

def statusPatch (c : ScheduledCapacity) (ns : String) (o : Observation)
    (conditions : List Condition) : StatusPatch :=
  buildStatusValue c (decision c o)
    ⟨recordedValue c o, o.observedDrained, targetRefValue c ns o.target, o.now⟩ conditions o.verdict

inductive Applies (c : ScheduledCapacity) (o : Observation) : Request → Prop where
  | mk {ns plural : String} {value : Int} {desired : OwnedObject} : c.ns = some ns →
      (decision c o).write = some value → o.target.apiResource = some plural →
      buildOwnedObject c ns value = .ok desired →
      Applies c o (.applyObject plural ns c.name desired)

/-- The write of the decision is behind: there was none, it was not sent, or it was accepted. -/
inductive Written (c : ScheduledCapacity) (o : Observation) (h : Log) : Prop where
  | nothing : (decision c o).write = none → Untouched h → Written c o h
  | unsent : (decision c o).write.isSome → o.target.apiResource = none → Untouched h → Written c o h
  | applied {plural ns name : String} {desired : OwnedObject} {h₀ : Log} :
      Applies c o (.applyObject plural ns name desired) → Untouched h₀ →
      History.Grown (fun q => q.looksUp = true) (⟨.applyObject plural ns name desired, .ok ()⟩ :: h₀) h →
      Written c o h

inductive Permitted (c : ScheduledCapacity) (h : Log) : Request → Prop where
  | lookUp {q : Request} : q.looksUp = true → Permitted c h q
  | getObject {plural ns name : String} : (∀ x ∈ h, x.1.looksUp = true) →
      Permitted c h (.getObject plural ns name)
  | listMachines {ns : String} : Untouched h → conflictSeen c h = false →
      Permitted c h (.listMachines ns)
  | apply {o : Observation} {q : Request} : Informed c h o → Untouched h → Applies c o q →
      Permitted c h q
  | patch {o : Observation} {ns : String} {conditions : List Condition} : Informed c h o →
      Written c o h → c.status ≠ some ((statusPatch c ns o conditions).apply none) →
      Permitted c h (.patchStatus (statusPatch c ns o conditions))

inductive Returns (c : ScheduledCapacity) : Except CapacityError (Option Observation) → Log → Prop where
  | standby {h : Log} : Untouched h → Returns c (.ok none) h
  | kept {h : Log} {o : Observation} {ns : String} {conditions : List Condition} : Informed c h o →
      Written c o h → c.status = some ((statusPatch c ns o conditions).apply none) →
      Returns c (.ok (some o)) h
  | patched {h : Log} {o : Observation} {ns : String} {conditions : List Condition} :
      Informed c h o → Written c o h →
      Returns c (.ok (some o)) (⟨.patchStatus (statusPatch c ns o conditions), .ok ()⟩ :: h)
  | failed {h : Log} {e : CapacityError} : Untouched h → Returns c (.error e) h
  | notApplied {h : Log} {e : CapacityError} {e' : KubeError} {plural ns name : String}
      {desired : OwnedObject} : Untouched h →
      Returns c (.error e) (⟨.applyObject plural ns name desired, .error e'⟩ :: h)
  | notPatched {h : Log} {e : CapacityError} {e' : KubeError} {p : StatusPatch} :
      Returns c (.error e) (⟨.patchStatus p, .error e'⟩ :: h)

def capacityContract :
    Contract Request Response World (Except CapacityError (Option Observation)) where
  answers := fun _ _ _ => True
  permits := fun w => Permitted w.capacity
  returns := fun w => Returns w.capacity

section Reading

variable {c : ScheduledCapacity} {h h' : Log}

theorem reads_of_looksUp {q : Request} (hq : q.looksUp = true) : q.reads = true :=
  ((Bool.and_eq_true _ _).mp hq).1

theorem patches_of_reads {q : Request} (hq : q.reads = true) : q.patches = false := by
  cases q <;> trivial

theorem Untouched.unpatched (hh : Untouched h) : Unpatched h :=
  fun x hx => patches_of_reads (hh x hx)

theorem untouched_of_looksUp (hh : ∀ x ∈ h, x.1.looksUp = true) : Untouched h :=
  fun x hx => reads_of_looksUp (hh x hx)

theorem looksUp_cons {q : Request} (hh : ∀ x ∈ h, x.1.looksUp = true) (hq : q.looksUp = true)
    (r : Response q) : ∀ x ∈ (⟨q, r⟩ :: h : Log), x.1.looksUp = true := by
  intro x hx
  rcases List.mem_cons.mp hx with rfl | hx
  · exact hq
  · exact hh x hx

theorem shownObject_of_aside {x : Sigma Response} (hx : x.1.aside = true) :
    shownObject x = none := by
  obtain ⟨q, r⟩ := x
  cases q <;> first | rfl | cases hx

theorem showsConflict_of_aside {x : Sigma Response} (hx : x.1.aside = true) :
    showsConflict c x = false := by
  obtain ⟨q, r⟩ := x
  cases q <;> first | rfl | cases hx

theorem objectSeen_grown (hh : History.Grown (fun q => q.aside = true) h h') :
    objectSeen h' = objectSeen h := by
  obtain ⟨l, rfl, hl⟩ := hh
  have hnone : l.findSome? shownObject = none :=
    List.findSome?_eq_none_iff.mpr fun x hx => shownObject_of_aside (hl x hx)
  simp [objectSeen, hnone]

theorem conflictSeen_grown (hh : History.Grown (fun q => q.aside = true) h h') :
    conflictSeen c h' = conflictSeen c h := by
  obtain ⟨l, rfl, hl⟩ := hh
  have hnone : l.any (showsConflict c) = false :=
    List.any_eq_false.mpr fun x hx => by simp [showsConflict_of_aside (hl x hx)]
  simp [conflictSeen, hnone]

theorem foundWritable_grown (hh : History.Grown (fun q => q.aside = true) h h') :
    foundWritable c h' = foundWritable c h := by
  unfold foundWritable
  rw [objectSeen_grown hh]

theorem Untouched.grown (hu : Untouched h) (hh : History.Grown (fun q => q.reads = true) h h') :
    Untouched h' := hh.forall hu

theorem Heard.after {verdict : SpotScheduleVerdict} (hv : Heard c h verdict)
    (hh : ∀ x ∈ h, x ∈ h') : Heard c h' verdict := by
  cases hv with
  | noKind hmem => exact .noKind (hh _ hmem)
  | failed hns hmem => exact .failed hns (hh _ hmem)
  | noObject hns hmem => exact .noObject hns (hh _ hmem)
  | object hns hmem => exact .object hns (hh _ hmem)

theorem Located.after {plural : String} (hl : Located c h plural) (hh : ∀ x ∈ h, x ∈ h') :
    Located c h' plural where
  allowed := hl.allowed
  served := hh _ hl.served
  shown := by
    obtain ⟨ns, existing, hns, hmem, howned⟩ := hl.shown
    exact ⟨ns, existing, hns, hh _ hmem, howned⟩

theorem Resolves.grown {target : TargetResolution} (hr : Resolves c h target)
    (hh : History.Grown (fun q => q.aside = true) h h') : Resolves c h' target where
  writable := by rw [hr.writable, foundWritable_grown hh]
  apiResource := hr.apiResource
  object := by
    rw [objectSeen_grown hh]
    exact hr.object
  located plural hplural := (hr.located plural hplural).after fun _ => hh.mem

theorem Informed.grown {o : Observation} (hi : Informed c h o)
    (hh : History.Grown (fun q => q.aside = true) h h') : Informed c h' o where
  verdict := hi.verdict.after fun _ => hh.mem
  target := hi.target.grown hh
  drained := hi.drained
  conflict := by rw [hi.conflict, conflictSeen_grown hh]

theorem Written.grown {o : Observation} (hw : Written c o h)
    (hh : History.Grown (fun q => q.looksUp = true) h h') : Written c o h' := by
  have hreads : History.Grown (fun q => q.reads = true) h h' := hh.mono fun _ => reads_of_looksUp
  cases hw with
  | nothing hnone hu => exact .nothing hnone (hu.grown hreads)
  | unsent hsome hres hu => exact .unsent hsome hres (hu.grown hreads)
  | applied ha hu hgrown => exact .applied ha hu (hgrown.trans hh)

theorem aside_of_looksUp {q : Request} (hq : q.looksUp = true) : q.aside = true :=
  ((Bool.and_eq_true _ _).mp hq).2

end Reading

end FiveSpot.Capacity
