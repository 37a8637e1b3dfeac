import FiveSpot.Capacity.Conformance

/-!
# What a call leaves alone

The effect of each call on the resource and on the owned object, and the status a reconcile in flight
was started on.
-/

namespace FiveSpot.Capacity

set_option autoImplicit false

open Effects

abbrev CapacityTrace := List (Obs Request Response World Answer (Except CapacityError (Option Observation)))

abbrev CapacityView := View Request Response World Answer (Except CapacityError (Option Observation))

abbrev CapacityGuard := Guard Request Response World Answer (Except CapacityError (Option Observation))

abbrev CapacityConfig :=
  Config Request Response World Answer (Except CapacityError (Option Observation))

def pendingApply (c : CapacityConfig) : Option (Current Request Response World × OwnedObject) :=
  match c.inflight with
  | some (cur, .call (.applyObject _ _ _ desired) _) => some (cur, desired)
  | _ => none

theorem pendingApply_eq_some {c : CapacityConfig} {cur : Current Request Response World}
    {desired : OwnedObject} (h : pendingApply c = some (cur, desired)) :
    c.view.current = some cur ∧ ∃ plural ns name k,
      c.inflight = some (cur, .call (.applyObject plural ns name desired) k) := by
  unfold pendingApply at h
  split at h
  · rename_i cur' plural ns name desired' k hinflight
    cases h
    exact ⟨by simp [Config.view, hinflight], plural, ns, name, k, hinflight⟩
  · cases h

section Calls

variable {w : World} {q : Request} {ch : Answer}

theorem exec_reads (hq : q.reads = true) : (w.exec q ch).2 = w := by
  cases q <;> first | rfl | cases hq

theorem exec_apply {plural ns name : String} {desired : OwnedObject} :
    (w.exec (.applyObject plural ns name desired) ch).2 =
      if ch.applied then w.applyObject desired else w :=
  writeAnswer_ok_snd w _ ch

theorem exec_patch {p : StatusPatch} :
    (w.exec (.patchStatus p) ch).2 = if ch.applied then w.patchStatus p else w :=
  writeAnswer_ok_snd w _ ch

theorem exec_capacity (hq : q.patches = false) : (w.exec q ch).2.capacity = w.capacity := by
  cases q with
  | patchStatus p => cases hq
  | applyObject plural ns name desired =>
    rw [exec_apply]
    split <;> rfl
  | _ => rfl

/-- Of all calls only the status patch changes the resource, and of it only the status. -/
theorem exec_spec : (w.exec q ch).2.capacity.spec = w.capacity.spec := by
  cases hq : q.patches with
  | false => rw [exec_capacity hq]
  | true =>
    cases q with
    | patchStatus p =>
      rw [exec_patch]
      split <;> rfl
    | _ => cases hq

end Calls

/-- The surroundings leave the status to the controller. -/
def StatusKept (v : CapacityView) (w : World) : Prop :=
  w.capacity.status = v.world.capacity.status

/-- Until it patches the status, a reconcile works on the status that is stored. -/
def Abreast (v : CapacityView) : Prop :=
  ∀ cur, v.current = some cur → Unpatched cur.done →
    cur.snapshot.capacity.status = v.world.capacity.status

namespace Abreast

variable {v : CapacityView}

theorem moved {w : World} (hv : Abreast v) (hw : StatusKept v w) : Abreast (v.moved w) := by
  intro cur hcur hun
  exact (hv cur hcur hun).trans hw.symm

theorem started : Abreast v.started := by
  intro cur hcur _
  cases hcur
  rfl

theorem called {cur : Current Request Response World} {q : Request} {ch : Answer}
    (hv : Abreast v) (hcur : v.current = some cur) : Abreast (v.called capacitySystem cur q ch) := by
  intro cur' hcur' hun
  cases hcur'
  have hq : q.patches = false := hun _ List.mem_cons_self
  have hbefore := hv cur hcur fun x hx => hun x (List.mem_cons_of_mem _ hx)
  change cur.snapshot.capacity.status = (v.world.exec q ch).2.capacity.status
  rw [exec_capacity hq]
  exact hbefore

theorem finished {cur : Current Request Response World}
    {a : Except CapacityError (Option Observation)} : Abreast (v.finished cur a) := by
  intro cur' hcur'
  cases hcur'

theorem restarted : Abreast (v.restarted capacitySystem) := by
  intro cur' hcur'
  cases hcur'

end Abreast

section Histories

variable {c : ScheduledCapacity} {o : Observation} {h : Log}

theorem Written.unpatched (hw : Written c o h) : Unpatched h := by
  cases hw with
  | nothing _ hu => exact hu.unpatched
  | unsent _ _ hu => exact hu.unpatched
  | applied _ hu hgrown =>
    refine hgrown.mono (fun _ hq => patches_of_reads (reads_of_looksUp hq)) |>.forall ?_
    intro x hx
    rcases List.mem_cons.mp hx with rfl | hx
    · rfl
    · exact hu.unpatched x hx

theorem Permitted.patches_eq_false {q : Request} (hq : Permitted c h q) (hh : ¬ Unpatched h) :
    q.patches = false := by
  cases hq with
  | lookUp hlook => exact patches_of_reads (reads_of_looksUp hlook)
  | getObject _ => rfl
  | listMachines _ _ => rfl
  | apply _ _ happlies =>
    cases happlies
    rfl
  | patch _ hw _ => exact absurd hw.unpatched hh

theorem status_of_patched {w : World} {q : Request} {ch : Answer} {p : StatusPatch}
    {r : Response (.patchStatus p)} (hq : Permitted c h q) (hmem : ⟨.patchStatus p, r⟩ ∈ h) :
    (w.exec q ch).2.capacity.status = w.capacity.status := by
  have hquiet : q.patches = false := hq.patches_eq_false fun hun => Bool.noConfusion (hun _ hmem)
  rw [exec_capacity hquiet]

theorem Applies.carries {plural ns name : String} {desired : OwnedObject}
    (ha : Applies c o (.applyObject plural ns name desired)) :
    ∃ value, (decision c o).write = some value ∧
      readI64At desired.spec c.spec.capacity.field = some value := by
  cases ha with
  | @mk _ _ value _ _ hwrite _ hbuild =>
    refine ⟨value, hwrite, ?_⟩
    have hfits : Json.FitsI64 value := by
      unfold decision at hwrite
      rw [decide_write] at hwrite
      split at hwrite
      · unfold writeIfChanged at hwrite
        split at hwrite
        · cases hwrite
        · cases hwrite
          unfold CapacityDecisionInput.wanted
          split
          · exact c.spec.capacity.fits
          · decide
      · cases hwrite
    unfold buildOwnedObject at hbuild
    split at hbuild
    · cases hbuild
    · rename_i spec hspec
      split at hbuild <;> cases hbuild
      exact readI64At_injectCapacityField hfits hspec

theorem write_ne_writtenValue {value : Int} (h : (decision c o).write = some value) :
    c.writtenValue ≠ some value := by
  unfold decision at h
  rw [decide_write] at h
  split at h
  · unfold writeIfChanged at h
    split at h
    · cases h
    · rename_i hne
      cases h
      exact hne
  · cases h

end Histories

end FiveSpot.Capacity
