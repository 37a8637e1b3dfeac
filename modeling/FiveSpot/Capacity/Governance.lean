import FiveSpot.Capacity.Reconcile
import FiveSpot.Effects.Oracle
import FiveSpot.Machine.NodeRefs

/-!
# Is a governance conflict current?

A capacity is withheld from a node that a ScheduledMachine of the namespace governs. What is looked at is
the Node in the status of that resource; what it stands for is the Machine bound to the Node. The
ScheduledMachines of the namespace are followed through runs of their own, any number side by side.
-/

namespace FiveSpot.Capacity

set_option autoImplicit false

open Effects Effects.Prog
open Machine (machineSystem machineNode referenceGuard)

/-- A ScheduledMachine, what its reconciler started from and what has happened since. -/
structure Governor where
  start : Machine.World
  events : List (Event Machine.World Answer)

def Governor.world (g : Governor) : Machine.World := (machineSystem.run (.idle g.start) g.events).world

/-- The surroundings of a ScheduledCapacity in a namespace with these ScheduledMachines. -/
def World.beside (w : World) (fleet : List Governor) : World :=
  { w with machines := fleet.map fun g => g.world.machine }

/-- `detect_host_governance_conflict` comes back with a conflict. -/
def reportsConflict (w : World) (ns : String) (c : Answer) : Bool :=
  ((detectHostGovernanceConflict ns w.capacity).run.eval fun q => (w.exec q c).1).toOption == some true

theorem exists_governs_of_reportsConflict {w : World} {ns : String} {c : Answer} {node : String}
    (hnode : w.capacity.spec.nodeName = some node) (h : reportsConflict w ns c = true) :
    ∃ machine ∈ w.machines, governsNode node machine = true := by
  unfold reportsConflict detectHostGovernanceConflict at h
  rw [hnode] at h
  cases c with
  | fail e applied => cases h
  | ok => exact List.any_eq_true.mp (Option.some.inj (beq_iff_eq.mp h))

theorem governsNode_iff {node : String} {machine : Machine.ScheduledMachine} :
    governsNode node machine = true ↔ ∃ nodeRef, machine.nodeRef = some nodeRef ∧ nodeRef.name = node := by
  unfold governsNode
  cases machine.nodeRef <;> simp

/--
A reported conflict is current: some ScheduledMachine of the namespace has its Machine on the node. This
holds after runs in which the surroundings neither take a Machine away nor bind it elsewhere as long as
its Node is named.
-/
theorem governance_conflict_current (w : World) (ns node : String) (c : Answer) (fleet : List Governor)
    (hnode : w.capacity.spec.nodeName = some node)
    (hstart : ∀ g ∈ fleet, Machine.NodeCurrent g.start)
    (hallows : ∀ g ∈ fleet, referenceGuard.Allows machineSystem (.idle g.start) g.events)
    (hconflict : reportsConflict (w.beside fleet) ns c = true) :
    ∃ g ∈ fleet, machineNode g.world = some node := by
  obtain ⟨machine, hmem, hgoverns⟩ :=
    exists_governs_of_reportsConflict (w := w.beside fleet) hnode hconflict
  obtain ⟨g, hg, rfl⟩ := List.mem_map.mp hmem
  obtain ⟨nodeRef, href, rfl⟩ := governsNode_iff.mp hgoverns
  exact ⟨g, hg, Machine.nodeCurrent_run (hstart g hg) (hallows g hg) nodeRef href⟩

section Sample

def sampleShared : World :=
  { sampleWorld with
    capacity := { sampleWorld.capacity with spec := { sampleSpec with nodeName := some "node-1" } } }

def sampleBound : Machine.World := Machine.joinSample Machine.sampleAdded.world

def referenceTests : Tests referenceGuard where
  start _ := true
  call _ _ _ := true
  start_sound _ _ := trivial
  call_sound _ _ _ _ := trivial
  crash _ := true
  crash_sound _ _ := trivial

theorem running_machine_conflicts :
    ∃ g ∈ [Governor.mk sampleBound (Machine.reconcileFor 12)], machineNode g.world = some "node-1" := by
  have hrun : sampleBound.machine.nodeRef.isNone = true ∧
      referenceTests.passAll machineSystem (.idle sampleBound) (Machine.reconcileFor 12) = true ∧
      reportsConflict (sampleShared.beside [⟨sampleBound, Machine.reconcileFor 12⟩]) "default" .ok =
        true := by
    decide +kernel
  refine governance_conflict_current sampleShared "default" "node-1" .ok _ rfl ?_ ?_ hrun.2.2
  · simp only [List.mem_singleton, forall_eq]
    intro nodeRef href
    simp [href] at hrun
  · simp only [List.mem_singleton, forall_eq]
    exact Tests.allows hrun.2.1

def removedAfter (disturb : Machine.World → Machine.World) (es : List (Event Machine.World Answer)) :
    Governor where
  start := Machine.sampleJoined.world
  events := .move (disturb Machine.sampleJoined.world) :: es ++
    [.move (Machine.goneSample (machineSystem.run (.idle (disturb Machine.sampleJoined.world)) es).world)]

/-- The kill switch, an emergency reclaim: the machine is gone and its resource still blocks the node. -/
theorem removed_machine_conflicts :
    let killed := removedAfter Machine.killSample (Machine.reconcileFor 12)
    let reclaimed := removedAfter Machine.requestSample (Machine.reconcileFor 30)
    killed.world.machine.phase = some .terminated ∧ machineNode killed.world = none ∧
      reportsConflict (sampleShared.beside [killed]) "default" .ok = true ∧
      reclaimed.world.machine.phase = some .disabled ∧ machineNode reclaimed.world = none ∧
      reportsConflict (sampleShared.beside [reclaimed]) "default" .ok = true := by
  decide +kernel

end Sample

end FiveSpot.Capacity
