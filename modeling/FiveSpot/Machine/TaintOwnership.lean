import FiveSpot.Machine.TaintPatches

/-!
# Whose taints a reconcile touches

A reconcile takes a taint for its own when key, effect and value are those of a recorded one; nothing on
the Node says who wrote it. As long as nobody else writes a taint like that, and nobody edits a Node
between its readings and the patch, what a patch changes was written by the controller.
-/

namespace FiveSpot.Machine

set_option autoImplicit false

open Effects

inductive Writer where
  | controller
  | others
  deriving DecidableEq

def World.taintOn (w : World) (client : Client) (name : String) (i : String × String) : Option Taint :=
  (w.nodes client name).bind fun node => taintAt node.taints i

/-- Who changed a taint of a Node last, or wrote it before the trace began. -/
def lastWriter (initial : Client → String → String × String → Writer) (client : Client) (name : String)
    (i : String × String) : MachineTrace → Writer
  | [] => initial client name i
  | .moved before after :: t =>
      if after.taintOn client name i = before.taintOn client name i then
        lastWriter initial client name i t
      else .others
  | .called w q c :: t =>
      if (w.exec q c).2.taintOn client name i = w.taintOn client name i then
        lastWriter initial client name i t
      else .controller
  | _ :: t => lastWriter initial client name i t

def claims (r : ScheduledMachine) : List NodeTaint := r.spec.nodeTaints ++ recordedTaints r

/-- The resource, or the copy of it that a reconcile works on, claims the taint. -/
def Claimed (v : MachineView) (t : Taint) : Prop :=
  ∃ want : NodeTaint, want.toTaint = t ∧
    (want ∈ claims v.world.machine ∨
      ∃ cur, v.current = some cur ∧ want ∈ claims cur.snapshot.machine)

/--
No other writer makes a taint both present and claimed on the Nodes the resource is ever on, nor edits the
taints of a Node while its reading is the latest thing a reconcile did.
-/
def ownTaintsGuard (near : Client → String → Prop) : MachineGuard where
  move v w :=
    (∀ client name i t, near client name → w.taintOn client name i = some t → Claimed (v.moved w) t →
      v.world.taintOn client name i = some t ∧ Claimed v t) ∧
    ∀ cur client name node h, v.current = some cur →
      cur.done = ⟨.getNode client name, .ok node⟩ :: h →
      (w.nodes client name).map Node.taints = (v.world.nodes client name).map Node.taints
  start _ := True
  call _ q _ := ∀ client name, q = .getNode client name → near client name
  crash _ := True

section Claims

theorem recordedTaints_patchStatus {w : World} {p : StatusPatch} {want : NodeTaint}
    (h : want ∈ recordedTaints (w.patchStatus p).machine) :
    want ∈ recordedTaints w.machine ∨ ∃ taints, p.appliedNodeTaints = some taints ∧ want ∈ taints := by
  cases hp : p.appliedNodeTaints with
  | some taints =>
    refine .inr ⟨taints, rfl, ?_⟩
    simpa [recordedTaints, World.patchStatus, StatusPatch.apply, hp] using h
  | none =>
    refine .inl ?_
    unfold recordedTaints at h ⊢
    cases hstatus : w.machine.status with
    | none =>
      simp [World.patchStatus, StatusPatch.apply, hp, hstatus, ScheduledMachineStatus.default] at h
    | some s => simpa [World.patchStatus, StatusPatch.apply, hp, hstatus] using h

theorem claims_machineAfter {w : World} {r : ScheduledMachine} {h : Log} {q : Request} {c : Answer}
    {want : NodeTaint} (hq : Tainted r h q) (hwant : want ∈ claims (machineAfter w q c)) :
    want ∈ claims w.machine ∨ want ∈ claims r := by
  cases q with
  | patchStatus p =>
    simp only [machineAfter] at hwant
    split at hwant
    · rcases List.mem_append.mp hwant with hspec | hrecorded
      · exact .inl (List.mem_append_left _ hspec)
      · rcases recordedTaints_patchStatus hrecorded with hold | ⟨taints, hp, hnew⟩
        · exact .inl (List.mem_append_right _ hold)
        · cases hq with
          | plain hplain => simp [Request.plain, hp] at hplain
          | record =>
            cases hp
            exact .inr (List.mem_append_left _ hnew)
    · exact .inl hwant
  | patchFinalizers _ | patchDisableSchedule =>
    simp only [machineAfter] at hwant
    split at hwant <;> exact .inl hwant
  | _ => exact .inl hwant

end Claims

section Owned

variable (near : Client → String → Prop) (initial : Client → String → String × String → Writer)

/-- What is claimed on a Node was written by the controller, and what was read last still stands. -/
structure Owned (v : MachineView) : Prop where
  clean : ∀ client name i t, near client name → v.world.taintOn client name i = some t →
    Claimed v t → lastWriter initial client name i v.trace = .controller
  read : ∀ cur client name node h, v.current = some cur →
    cur.done = ⟨.getNode client name, .ok node⟩ :: h →
    near client name ∧ (v.world.nodes client name).map Node.taints = some node.taints
  twice : ∀ cur client name first second h, v.current = some cur →
    cur.done = ⟨.getNode client name, .ok second⟩ :: ⟨.getNode client name, .ok first⟩ :: h →
    second.taints = first.taints

variable {near initial}

theorem owned_idle {w : World} {trace : MachineTrace}
    (hclean : ∀ client name i t, near client name → w.taintOn client name i = some t →
      (∃ want ∈ claims w.machine, want.toTaint = t) →
      lastWriter initial client name i trace = .controller) :
    Owned near initial ⟨w, trace, none⟩ where
  clean client name i t hn ht hclaimed := by
    obtain ⟨want, heq, hworld | ⟨cur, hcur, _⟩⟩ := hclaimed
    · exact hclean client name i t hn ht ⟨want, hworld, heq⟩
    · cases hcur
  read _ _ _ _ _ hcur := by cases hcur
  twice _ _ _ _ _ _ hcur := by cases hcur

theorem owned_called {v : MachineView} {cur : Current Request Response World} {q : Request} {c : Answer}
    (hv : Owned near initial v) (hcur : v.current = some cur)
    (hq : Tainted cur.snapshot.machine cur.done q)
    (hnear : ∀ client name, q = .getNode client name → near client name) :
    Owned near initial (v.called machineSystem cur q c) where
  clean client name i t hn ht hclaimed := by
    change (if (v.world.exec q c).2.taintOn client name i = v.world.taintOn client name i then
      lastWriter initial client name i v.trace else .controller) = .controller
    split
    · rename_i hsame
      refine hv.clean client name i t hn (hsame ▸ ht) ?_
      obtain ⟨want, heq, hwant⟩ := hclaimed
      refine ⟨want, heq, ?_⟩
      rcases hwant with hworld | ⟨cur', ⟨⟩, hsnapshot⟩
      · have hafter : want ∈ claims (machineAfter v.world q c) := by
          rw [← exec_machine]
          exact hworld
        rcases claims_machineAfter hq hafter with hold | hnew
        · exact .inl hold
        · exact .inr ⟨cur, hcur, hnew⟩
      · exact .inr ⟨cur, hcur, hsnapshot⟩
    · rfl
  read cur' client name node h hcur' hdone := by
    cases hcur'
    obtain ⟨hhead, _⟩ := List.cons.inj hdone
    obtain ⟨hget, hnode, hworld⟩ := nodes_of_read hhead
    refine ⟨hnear client name hget, ?_⟩
    change ((v.world.exec q c).2.nodes client name).map Node.taints = some node.taints
    rw [hworld, hnode]
    rfl
  twice cur' client name first second h hcur' hdone := by
    cases hcur'
    obtain ⟨hhead, htail⟩ := List.cons.inj hdone
    obtain ⟨_, hnode, _⟩ := nodes_of_read hhead
    have hfirst := (hv.read cur client name first h hcur htail).2
    rw [hnode] at hfirst
    exact Option.some.inj hfirst

theorem owned_preserved :
    taintContract.Preserves machineSystem (ownTaintsGuard near) (Owned near initial) where
  move v w hv hG := by
    refine ⟨fun client name i t hn ht hclaimed => ?_, fun cur client name node h hcur hdone => ?_,
      hv.twice⟩
    · obtain ⟨hsame, hbefore⟩ := hG.1 client name i t hn ht hclaimed
      change (if w.taintOn client name i = v.world.taintOn client name i then
        lastWriter initial client name i v.trace else .others) = .controller
      have hkept : w.taintOn client name i = v.world.taintOn client name i := ht.trans hsame.symm
      rw [if_pos hkept]
      exact hv.clean client name i t hn hsame hbefore
    · obtain ⟨hn, htaints⟩ := hv.read cur client name node h hcur hdone
      exact ⟨hn, (hG.2 cur client name node h hcur hdone).trans htaints⟩
  start v hv _ _ := by
    refine ⟨taintContract_binds _, fun client name i t hn ht hclaimed => ?_, ?_, ?_⟩
    · refine hv.clean client name i t hn ht ?_
      obtain ⟨want, heq, hworld | ⟨cur, ⟨⟩, hsnapshot⟩⟩ := hclaimed
      · exact ⟨want, heq, .inl hworld⟩
      · exact ⟨want, heq, .inl hsnapshot⟩
    · rintro cur client name node h ⟨⟩ ⟨⟩
    · rintro cur client name first second h ⟨⟩ ⟨⟩
  call v cur q c hv hcur hq hG := ⟨trivial, owned_called hv hcur hq hG⟩
  finish v cur a hv _ _ := owned_idle fun client name i t hn ht ⟨want, hwant, heq⟩ =>
    hv.clean client name i t hn ht ⟨want, heq, .inl hwant⟩
  crash v hv _ := owned_idle fun client name i t hn ht ⟨want, hwant, heq⟩ =>
    hv.clean client name i t hn ht ⟨want, heq, .inl hwant⟩

/--
A patch about to be sent removes or changes only taints of its Node that the controller was the last to
write.
-/
theorem touched_taint_is_own (near : Client → String → Prop)
    (initial : Client → String → String × String → Writer) (w : World)
    (hw : ∀ client name i t, near client name → w.taintOn client name i = some t →
      (∃ want ∈ claims w.machine, want.toTaint = t) → initial client name i = .controller)
    (es : List (Event World Answer))
    (hes : (ownTaintsGuard near).Allows machineSystem (.idle w) es)
    (cur : Current Request Response World) (client : Client) (name : String) (ts : List Taint)
    (hpending : pendingTaints (machineSystem.run (.idle w) es) = some (cur, client, name, ts))
    (i : String × String) (t : Taint)
    (ht : (machineSystem.run (.idle w) es).world.taintOn client name i = some t)
    (hts : taintAt ts i ≠ some t) :
    lastWriter initial client name i (machineSystem.run (.idle w) es).trace = .controller := by
  have hinit : Owned near initial ⟨w, [], none⟩ := owned_idle hw
  obtain ⟨hv, hgoverns⟩ := owned_preserved.run (c := .idle w) hinit Contract.governs_idle hes
  obtain ⟨first, second, h, hdone, rfl⟩ := readings_of_governed hgoverns hpending
  have hcur : (machineSystem.run (.idle w) es).view.current = some cur := by
    obtain ⟨p, k, hin, _⟩ := exists_of_pendingTaints hpending
    simp [Config.view, hin]
  obtain ⟨hn, hread⟩ := hv.read cur client name second _ hcur hdone
  -- The plan was made for a reading of the same taints that it is now applied to.
  have hsame := hv.twice cur client name first second h hcur hdone
  have hat : taintAt first.taints i = some t := by
    obtain ⟨node, hnode, htaints⟩ := Option.map_eq_some_iff.mp hread
    have hnode' : (machineSystem.run (.idle w) es).world.nodes client name = some node := hnode
    simp only [World.taintOn, hnode', Option.bind_some] at ht
    rw [← hsame, ← htaints]
    exact ht
  rw [hsame] at hts
  obtain ⟨old, hold, heq⟩ := recorded_of_target_ne hat hts
  exact hv.clean client name i t hn ht ⟨old, heq, .inr ⟨cur, hcur, List.mem_append_right _ hold⟩⟩

end Owned

section Sample

def onSampleNode (client : Client) (name : String) : Prop := client = .management ∧ name = "node-1"

def ownTaintsTests : Tests (ownTaintsGuard onSampleNode) where
  start _ := true
  call _ q _ :=
    match q with
    | .getNode client name => client == .management && name == "node-1"
    | _ => true
  crash _ := true
  start_sound _ _ := trivial
  call_sound _ q _ h := by
    rintro client name rfl
    simpa [onSampleNode] using h
  crash_sound _ _ := trivial

def sampleTeam : World := taintSample [teamTaint] sampleJoined.world

def sampleDropped : List (Event World Answer) :=
  reconcileFor 18 ++
    .move (taintSample [] (machineSystem.run (.idle sampleTeam) (reconcileFor 18)).world) ::
      reconcileFor 14

theorem drop_admitted {near : Client → String → Prop}
    {c : Config Request Response World Answer (Except ReconcilerError Action)}
    (hc : c.inflight.isNone = true) :
    (ownTaintsGuard near).Admits c (.move (taintSample [] c.world)) := by
  obtain ⟨w, trace, inflight⟩ := c
  cases Option.isNone_iff_eq_none.mp hc
  refine ⟨fun client name i t _ ht hclaimed => ⟨ht, ?_⟩, fun cur client name node h hcur => by cases hcur⟩
  obtain ⟨want, heq, hworld | ⟨cur, hcur, _⟩⟩ := hclaimed
  · exact ⟨want, heq, .inl (List.mem_append_right _ hworld)⟩
  · cases hcur

theorem sampleDropped_allowed :
    (ownTaintsGuard onSampleNode).Allows machineSystem (.idle sampleTeam) sampleDropped := by
  have hrun : let c := machineSystem.run (.idle sampleTeam) (reconcileFor 18)
      c.inflight.isNone = true ∧
        ownTaintsTests.passAll machineSystem (.idle sampleTeam) (reconcileFor 18) = true ∧
        ownTaintsTests.passAll machineSystem
          (machineSystem.step c (.move (taintSample [] c.world))) (reconcileFor 14) = true := by
    decide +kernel
  exact Tests.allows_move (drop_admitted hrun.1) hrun.2

/-- The patch that takes the dropped taint off the Node. -/
theorem dropped_taint_is_own :
    (pendingTaints (machineSystem.run (.idle sampleTeam) sampleDropped)).map Prod.snd =
        some (.management, "node-1", []) ∧
      lastWriter (fun _ _ _ => .others) .management "node-1" teamTaint.identity
        (machineSystem.run (.idle sampleTeam) sampleDropped).trace = .controller := by
  have hfacts : (pendingTaints (machineSystem.run (.idle sampleTeam) sampleDropped)).map Prod.snd =
        some (.management, "node-1", []) ∧
      (machineSystem.run (.idle sampleTeam) sampleDropped).world.taintOn .management "node-1"
        teamTaint.identity = some teamTaint.toTaint ∧
      (sampleTeam.nodes .management "node-1").map Node.taints = some [] := by
    decide +kernel
  obtain ⟨hsnd, hon, hbare⟩ := hfacts
  obtain ⟨⟨cur, rest⟩, hpending, rfl⟩ := Option.map_eq_some_iff.mp hsnd
  refine ⟨hsnd, touched_taint_is_own onSampleNode _ sampleTeam ?_ sampleDropped sampleDropped_allowed
    cur _ _ _ hpending _ teamTaint.toTaint hon (by simp [taintAt])⟩
  rintro client name i t ⟨rfl, rfl⟩ ht _
  obtain ⟨node, hnode, htaints⟩ := Option.map_eq_some_iff.mp hbare
  simp [World.taintOn, hnode, htaints, taintAt] at ht

/--
An administrator taints the Node and the resource asks for the same taint. The controller never writes it,
records it all the same, and takes it off when the resource no longer asks for it.
-/
theorem adopted_taint_is_removed :
    let w := editTaintSample teamTaint.toTaint sampleJoined.world
    let c := machineSystem.run (.idle sampleJoined.world) [.move w, .move (taintSample [teamTaint] w)]
    let c' := machineSystem.run c (reconcileFor 16)
    let c'' := machineSystem.run c' (.move (taintSample [] c'.world) :: reconcileFor 14)
    c''.world.taintOn .management "node-1" teamTaint.identity = some teamTaint.toTaint ∧
      (pendingTaints c'').map Prod.snd = some (.management, "node-1", []) ∧
      lastWriter (fun _ _ _ => .controller) .management "node-1" teamTaint.identity c''.trace =
        .others ∧
      ((machineSystem.run c'' [.next .ok]).world.nodes .management "node-1").map Node.taints =
        some [] := by
  decide +kernel

end Sample

end FiveSpot.Machine
