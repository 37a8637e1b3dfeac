import FiveSpot.Capacity.Injection
import FiveSpot.Capacity.Frame

/-!
# Where capacity is written

The decision may ask for a write although the target was blocked: a conflict comes first in it. That
nothing is written then, and that all that is written goes to the resource's own object, rests on the
resolution of the target, which alone knows where to send an apply.
-/

namespace FiveSpot.Capacity

set_option autoImplicit false

open Effects Effects.Prog

/-- The object has a controller reference with the UID of the resource. -/
def Controls (c : ScheduledCapacity) (object : Object) : Prop :=
  ∃ owner ∈ object.ownerReferences.getD [], c.uid = some owner.uid ∧ owner.controller = some true

/-- An apply to the resource's own object, in an allowed group, after a look at what is there. -/
structure Confined (c : ScheduledCapacity) (h : Log) (plural ns name : String)
    (desired : OwnedObject) : Prop where
  ownNamespace : c.ns = some ns
  ownName : name = c.name
  group : (groupVersion c.spec.target.apiVersion).1 ∈ allowedCapacityTargetApiGroups
  served : ⟨.pinnedKind (groupVersion c.spec.target.apiVersion).1
    (groupVersion c.spec.target.apiVersion).2 c.spec.target.kind, .ok plural⟩ ∈ h
  existing : ∃ existing, ⟨.getObject plural ns name, .ok existing⟩ ∈ h ∧
    ∀ object, existing = some object → Controls c object
  identity : desired.apiVersion = c.spec.target.apiVersion ∧ desired.kind = c.spec.target.kind ∧
    desired.name = name ∧ desired.ns = ns
  owner : c.uid = some desired.owner.uid ∧ desired.owner.controller = some true
  template : DiffersOnlyAt (Text.split '.' c.spec.capacity.field) c.spec.template desired.spec

/-- Of all calls only applies are restricted. -/
structure Sending (c : ScheduledCapacity) (h : Log) (q : Request) : Prop where
  confined : ∀ plural ns name desired, q = .applyObject plural ns name desired →
    Confined c h plural ns name desired

section Apply

variable {c : ScheduledCapacity} {h : Log} {ns : String} {value : Int} {desired : OwnedObject}

theorem controls_of_isOwnedBy {object : Object} (howned : isOwnedBy object c = true) :
    Controls c object := by
  unfold isOwnedBy at howned
  split at howned
  · cases howned
  · rename_i uid huid
    obtain ⟨owner, hmem, howner⟩ := List.any_eq_true.mp howned
    obtain ⟨heq, hcontroller⟩ := (Bool.and_eq_true _ _).mp howner
    refine ⟨owner, hmem, ?_, ?_⟩
    · rw [huid, eq_of_beq heq]
    · cases hc : owner.controller with
      | none => simp [hc] at hcontroller
      | some b => simpa [hc] using hcontroller

theorem buildOwnedObject_ok (hbuild : buildOwnedObject c ns value = .ok desired) :
    (desired.apiVersion = c.spec.target.apiVersion ∧ desired.kind = c.spec.target.kind ∧
      desired.name = c.name ∧ desired.ns = ns) ∧
    (c.uid = some desired.owner.uid ∧ desired.owner.controller = some true) ∧
    injectCapacityField c.spec.template c.spec.capacity.field value = .ok desired.spec := by
  unfold buildOwnedObject at hbuild
  split at hbuild
  · cases hbuild
  · rename_i spec hspec
    split at hbuild
    · cases hbuild
    · rename_i owner howner
      cases hbuild
      obtain ⟨uid, huid, rfl⟩ := Option.map_eq_some_iff.mp howner
      exact ⟨⟨rfl, rfl, rfl, rfl⟩, ⟨huid, rfl⟩, hspec⟩

theorem Applies.confined {o : Observation} {plural name : String}
    (ha : Applies c o (.applyObject plural ns name desired)) (hi : Informed c h o) :
    Confined c h plural ns name desired := by
  cases ha with
  | mk hns _ hplural hbuild =>
    obtain ⟨hidentity, howner, hspec⟩ := buildOwnedObject_ok hbuild
    have hlocated := hi.target.located plural hplural
    obtain ⟨ns', existing, hns', hmem, howned⟩ := hlocated.shown
    obtain rfl : ns' = ns := Option.some.inj (hns'.symm.trans hns)
    exact
      { ownNamespace := hns
        ownName := rfl
        group := hlocated.allowed
        served := hlocated.served
        existing := ⟨existing, hmem, fun object h => controls_of_isOwnedBy (howned object h)⟩
        identity := hidentity
        owner := howner
        template := differsOnlyAt_injectCapacityField hspec }

theorem Permitted.sending {q : Request} (hq : Permitted c h q) : Sending c h q := by
  constructor
  rintro plural ns name desired rfl
  cases hq with
  | lookUp hlook => cases hlook
  | apply hi _ happlies => exact happlies.confined hi

end Apply

/-- Whatever a reconcile is answered, it applies nothing but the resource's own object. -/
theorem applies_are_confined (c : ScheduledCapacity) :
    (reconcile c).run.Meets (fun _ _ => True) (Sending c) (fun _ _ => True) [] := by
  have hobserved : Keeps (Permitted c) (reconcile c) [] (fun _ _ => True) fun _ _ => True := by
    refine keeps_reconcileObserved.bind (fun observed h' _ => ?_) fun _ _ _ => trivial
    cases observed <;> exact keeps_pure trivial
  exact (hobserved.meets.permit fun _ _ hq => hq.sending).mono fun _ _ _ => trivial

end FiveSpot.Capacity
