import FiveSpot.Effects.Fallible
import FiveSpot.Effects.System
import FiveSpot.Capacity.Decision
import FiveSpot.Machine.Types

/-!
# The surroundings of the ScheduledCapacity reconciler

The calls the reconciler makes and the part of the cluster that answers them. The owned object is the
one of the target kind under the name of the resource; the target is immutable, so there is one.
-/

namespace FiveSpot.Capacity

set_option autoImplicit false

open Effects

structure OwnerReference where
  apiVersion : String
  kind : String
  name : String
  uid : String
  controller : Option Bool
  blockOwnerDeletion : Option Bool
  deriving DecidableEq

/-- An object of the target kind; of its spec, the fields this controller manages. -/
structure Object where
  uid : Option String
  ownerReferences : Option (List OwnerReference)
  spec : Json
  status : Option Json

/-- What a `DynamicObject` holds beside its metadata. -/
def Object.data (o : Object) : Json :=
  .obj (("spec", o.spec) :: o.status.toList.map fun status => ("status", status))

/-- The body of a server-side apply, as `build_owned_object` lays it out. -/
structure OwnedObject where
  apiVersion : String
  kind : String
  name : String
  ns : String
  labels : List (String × String)
  owner : OwnerReference
  spec : Json

inductive Request where
  | isLeader
  | now
  | pinnedKind (group version kind : String)
  | getProvider (ns name : String)
  | accessReview (verb group plural ns : String)
  | getObject (plural ns name : String)
  | listMachines (ns : String)
  | applyObject (plural ns name : String) (desired : OwnedObject)
  | patchStatus (patch : StatusPatch)

@[reducible] def Response : Request → Type
  | .isLeader => Bool
  | .now => Instant
  /- The plural under which the kind is served. -/
  | .pinnedKind _ _ _ => Except KubeError String
  | .getProvider _ _ => Except KubeError (Option Json)
  /- The `allowed` of the review's status, when it has one. -/
  | .accessReview _ _ _ _ => Except KubeError (Option Bool)
  | .getObject _ _ _ => Except KubeError (Option Object)
  | .listMachines _ => Except KubeError (List Machine.ScheduledMachine)
  | .applyObject _ _ _ _ => Except KubeError Unit
  | .patchStatus _ => Except KubeError Unit

structure World where
  capacity : ScheduledCapacity
  clock : Instant
  leader : Bool
  served : String → String → String → Option String
  provider : Option Json
  access : String → String → String → Option Bool
  object : Option Object
  /-- The UID the server issues to the next object. -/
  freshUid : String
  machines : List Machine.ScheduledMachine

namespace World

variable (w : World)

def patchStatus (p : StatusPatch) : World :=
  { w with capacity := { w.capacity with status := some (p.apply w.capacity.status) } }

/--
Server-side apply by the sole field manager: the managed fields are replaced, the owner reference is
set among those there are, and the status is left alone.
-/
def applyObject (desired : OwnedObject) : World :=
  let others := ((w.object.bind fun o => o.ownerReferences).getD []).filter fun r =>
    r.uid != desired.owner.uid
  { w with
    object := some
      { uid := (w.object.bind fun o => o.uid).or (some w.freshUid)
        ownerReferences := some (desired.owner :: others)
        spec := desired.spec
        status := w.object.bind fun o => o.status } }

def exec (r : Request) (c : Answer) : Response r × World :=
  match r with
  | .isLeader => (w.leader, w)
  | .now => (w.clock, w)
  | .pinnedKind group version kind =>
      (readAnswer c (match w.served group version kind with
        | some plural => .ok plural
        | none => notFound), w)
  | .getProvider _ _ => (readAnswer c (.ok w.provider), w)
  | .accessReview verb group plural _ => (readAnswer c (.ok (w.access verb group plural)), w)
  | .getObject _ _ _ => (readAnswer c (.ok w.object), w)
  | .listMachines _ => (readAnswer c (.ok w.machines), w)
  | .applyObject _ _ _ desired => writeAnswer w c (.ok (w.applyObject desired))
  | .patchStatus p => writeAnswer w c (.ok (w.patchStatus p))

end World

end FiveSpot.Capacity
