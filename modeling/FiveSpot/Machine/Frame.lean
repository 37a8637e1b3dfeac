import FiveSpot.Machine.Conformance

/-!
# What a call leaves alone

The effect of each call on the stored resource, in one equation, and what follows for its phase, its
identity and the clock.
-/

namespace FiveSpot.Machine

set_option autoImplicit false

open Effects

abbrev MachineTrace := List (Obs Request Response World Answer (Except ReconcilerError Action))

abbrev MachineObs := Obs Request Response World Answer (Except ReconcilerError Action)

abbrev MachineView := View Request Response World Answer (Except ReconcilerError Action)

abbrev MachineGuard := Guard Request Response World Answer (Except ReconcilerError Action)

def machineAfter (w : World) (q : Request) (c : Answer) : ScheduledMachine :=
  match q with
  | .patchStatus p => if c.applied then (w.patchStatus p).machine else w.machine
  | .patchFinalizers fs => if c.applied then (w.patchFinalizers fs).machine else w.machine
  | .patchDisableSchedule => if c.applied then w.disableSchedule.machine else w.machine
  | _ => w.machine

/-- `w'` differs from `w` in the objects, the nodes and the remembered reclaims at most. -/
def ClusterOnly (w w' : World) : Prop :=
  ∃ objects nodes reclaims,
    w' = { w with objects := objects, nodes := nodes, recentReclaims := reclaims }

theorem ClusterOnly.refl (w : World) : ClusterOnly w w := ⟨_, _, _, rfl⟩

theorem clusterOnly_writeAnswer {w : World} {c : Answer} {after : Except KubeError World}
    (hafter : ∀ w', after = .ok w' → ClusterOnly w w') :
    ClusterOnly w (writeAnswer w c after).2 := by
  cases after with
  | error e => rcases c with _ | ⟨e', _ | _⟩ <;> exact .refl w
  | ok w' =>
    rw [writeAnswer_ok_snd]
    split
    · exact hafter w' rfl
    · exact .refl w

theorem clusterOnly_create {w w' : World} {k : ObjectKey} {body : Json}
    (h : w.create k body = .ok w') : ClusterOnly w w' := by
  unfold World.create at h
  split at h <;> cases h
  exact ⟨_, _, _, rfl⟩

theorem clusterOnly_delete {w w' : World} {k : ObjectKey} (h : w.delete k = .ok w') :
    ClusterOnly w w' := by
  unfold World.delete at h
  split at h <;> cases h
  exact ⟨_, _, _, rfl⟩

theorem clusterOnly_patchNode {w w' : World} {client : Client} {name : String} {p : NodePatch}
    (h : w.patchNode client name p = .ok w') : ClusterOnly w w' := by
  unfold World.patchNode at h
  split at h <;> cases h
  exact ⟨_, _, _, rfl⟩

theorem exec_snd (w : World) (q : Request) (c : Answer) :
    ClusterOnly { w with machine := machineAfter w q c } (w.exec q c).2 := by
  cases q with
  | patchStatus _ | patchFinalizers _ | patchDisableSchedule =>
    simp only [World.exec, writeAnswer_ok_snd, machineAfter]
    split <;> exact .refl _
  | create version k body => exact clusterOnly_writeAnswer fun _ h => clusterOnly_create h
  | delete version k => exact clusterOnly_writeAnswer fun _ h => clusterOnly_delete h
  | patchNode client name p => exact clusterOnly_writeAnswer fun _ h => clusterOnly_patchNode h
  | publish _ | deletePod _ _ _ | applyConfigMap _ _ _ | deleteConfigMap _ _ =>
    exact clusterOnly_writeAnswer fun w' h => by
      cases h
      exact .refl w
  | recordReclaim now => exact ⟨_, _, _, rfl⟩
  | _ => exact .refl w

@[simp] theorem exec_machine (w : World) (q : Request) (c : Answer) :
    (w.exec q c).2.machine = machineAfter w q c := by
  obtain ⟨_, _, _, h⟩ := exec_snd w q c
  rw [h]

@[simp] theorem exec_clock (w : World) (q : Request) (c : Answer) :
    (w.exec q c).2.clock = w.clock := by
  obtain ⟨_, _, _, h⟩ := exec_snd w q c
  rw [h]

def objectsAfter (w : World) (q : Request) (c : Answer) : ObjectKey → Option Object :=
  match q with
  | .create _ k body =>
      if c.applied && (w.objects k).isNone then Function.update w.objects k (some ⟨body, false⟩)
      else w.objects
  | .delete _ k =>
      if c.applied then
        Function.update w.objects k ((w.objects k).map fun o => { o with terminating := true })
      else w.objects
  | _ => w.objects

theorem exec_objects (w : World) (q : Request) (c : Answer) :
    (w.exec q c).2.objects = objectsAfter w q c := by
  cases q with
  | patchStatus _ | patchFinalizers _ | patchDisableSchedule =>
    simp only [World.exec, writeAnswer_ok_snd, objectsAfter]
    split <;> rfl
  | create version k body =>
    simp only [World.exec, World.create, objectsAfter]
    cases hk : w.objects k with
    | some o => rcases c with _ | ⟨e, _ | _⟩ <;> rfl
    | none => rcases c with _ | ⟨e, _ | _⟩ <;> rfl
  | delete version k =>
    simp only [World.exec, World.delete, objectsAfter]
    cases hk : w.objects k with
    | some o => rcases c with _ | ⟨e, _ | _⟩ <;> rfl
    | none =>
      have hsame : Function.update w.objects k none = w.objects := by
        rw [← hk, Function.update_eq_self]
      rcases c with _ | ⟨e, _ | _⟩ <;> simp [writeAnswer, notFound, hsame, Answer.applied]
  | patchNode client name p =>
    simp only [World.exec, World.patchNode]
    cases w.nodes client name <;> rcases c with _ | ⟨e, _ | _⟩ <;> rfl
  | publish _ | deletePod _ _ _ | applyConfigMap _ _ _ | deleteConfigMap _ _ =>
    rcases c with _ | ⟨e, _ | _⟩ <;> rfl
  | _ => rfl

section Nodes

def nodesAfter (w : World) (q : Request) (c : Answer) : Client → String → Option Node :=
  match q with
  | .patchNode client name p =>
      if c.applied then
        Function.update w.nodes client
          (Function.update (w.nodes client) name ((w.nodes client name).map p.apply))
      else w.nodes
  | _ => w.nodes

theorem exec_nodes (w : World) (q : Request) (c : Answer) :
    (w.exec q c).2.nodes = nodesAfter w q c := by
  cases q with
  | patchStatus _ | patchFinalizers _ | patchDisableSchedule =>
    simp only [World.exec, writeAnswer_ok_snd, nodesAfter]
    split <;> rfl
  | create version k body =>
    simp only [World.exec, World.create]
    cases w.objects k <;> rcases c with _ | ⟨e, _ | _⟩ <;> rfl
  | delete version k =>
    simp only [World.exec, World.delete]
    cases w.objects k <;> rcases c with _ | ⟨e, _ | _⟩ <;> rfl
  | patchNode client name p =>
    simp only [World.exec, World.patchNode, nodesAfter]
    cases hname : w.nodes client name with
    | some n => rcases c with _ | ⟨e, _ | _⟩ <;> rfl
    | none =>
      have hsame : Function.update w.nodes client (Function.update (w.nodes client) name none) =
          w.nodes := by
        rw [← hname, Function.update_eq_self, Function.update_eq_self]
      rcases c with _ | ⟨e, _ | _⟩ <;> simp [writeAnswer, notFound, hsame, Answer.applied]
  | publish _ | deletePod _ _ _ | applyConfigMap _ _ _ | deleteConfigMap _ _ =>
    rcases c with _ | ⟨e, _ | _⟩ <;> rfl
  | _ => rfl

theorem nodes_of_read {w : World} {q : Request} {c : Answer} {client : Client} {name : String}
    {node : Node}
    (h : (⟨q, (w.exec q c).1⟩ : Sigma Response) = ⟨.getNode client name, .ok node⟩) :
    q = .getNode client name ∧ w.nodes client name = some node ∧ (w.exec q c).2 = w := by
  obtain ⟨rfl, hanswer⟩ := Sigma.mk.inj h
  have hanswer := eq_of_heq hanswer
  refine ⟨rfl, ?_, rfl⟩
  simp only [World.exec] at hanswer
  cases hnode : w.nodes client name with
  | none => cases c <;> simp [hnode, readAnswer, notFound] at hanswer
  | some node' => cases c <;> simp_all [readAnswer]

end Nodes

section Objects

variable {w : World} {q : Request} {c : Answer} {k : ObjectKey}

theorem absent_objectsAfter (hq : q.isCreate = false) (hk : w.objects k = none) :
    objectsAfter w q c k = none := by
  cases q with
  | create version k' body => cases hq
  | delete version k' =>
    simp only [objectsAfter]
    split
    · rw [Function.update_apply]
      split
      · rename_i heq
        rw [← heq, hk]
        rfl
      · exact hk
    · exact hk
  | _ => exact hk

def isLive (o : Option Object) : Bool := o.any fun o => !o.terminating

theorem isLive_objectsAfter (hq : ∀ version k, q ≠ .delete version k)
    (hk : isLive (w.objects k) = true) : isLive (objectsAfter w q c k) = true := by
  cases q with
  | create version k' body =>
    simp only [objectsAfter]
    split
    · rw [Function.update_apply]
      split
      · rfl
      · exact hk
    · exact hk
  | delete version k' => exact absurd rfl (hq version k')
  | _ => exact hk

theorem data_objectsAfter {o : Object} (hk : w.objects k = some o) :
    ∃ o', objectsAfter w q c k = some o' ∧ o'.data = o.data := by
  cases q with
  | create version k' body =>
    simp only [objectsAfter]
    split
    · rename_i hnew
      have hne : k ≠ k' := by
        rintro rfl
        simp [hk] at hnew
      exact ⟨o, by rw [Function.update_of_ne hne, hk], rfl⟩
    · exact ⟨o, hk, rfl⟩
  | delete version k' =>
    simp only [objectsAfter]
    split
    · by_cases heq : k = k'
      · subst heq
        exact ⟨{ o with terminating := true }, by simp [hk], rfl⟩
      · exact ⟨o, by rw [Function.update_of_ne heq, hk], rfl⟩
    · exact ⟨o, hk, rfl⟩
  | _ => exact ⟨o, hk, rfl⟩

theorem isLive_created {version : String} {body : Json}
    (h : (w.exec (.create version k body) c).1 = .ok ()) :
    isLive (objectsAfter w (.create version k body) c k) = true := by
  obtain ⟨rfl, w', hw'⟩ := writeAnswer_fst_eq_ok h
  cases hk : w.objects k with
  | some o => simp [World.create, hk] at hw'
  | none => simp [objectsAfter, hk, Answer.applied, isLive]

end Objects

structure SameIdentity (m m' : ScheduledMachine) : Prop where
  name : m'.name = m.name
  ns : m'.ns = m.ns
  bootstrapSpec : m'.spec.bootstrapSpec = m.spec.bootstrapSpec
  infrastructureSpec : m'.spec.infrastructureSpec = m.spec.infrastructureSpec

theorem SameIdentity.ownKeys_eq {m m' : ScheduledMachine} (h : SameIdentity m m') :
    ownKeys m' = ownKeys m := by
  simp [ownKeys, h.name, h.ns, h.bootstrapSpec, h.infrastructureSpec]

theorem SameIdentity.trans {m m' m'' : ScheduledMachine} (h : SameIdentity m m')
    (h' : SameIdentity m' m'') : SameIdentity m m'' :=
  ⟨h'.name.trans h.name, h'.ns.trans h.ns, h'.bootstrapSpec.trans h.bootstrapSpec,
    h'.infrastructureSpec.trans h.infrastructureSpec⟩

structure SameName (m m' : ScheduledMachine) : Prop where
  name : m'.name = m.name
  ns : m'.ns = m.ns

theorem SameIdentity.sameName {m m' : ScheduledMachine} (h : SameIdentity m m') : SameName m m' :=
  ⟨h.name, h.ns⟩

theorem SameName.trans {m m' m'' : ScheduledMachine} (h : SameName m m') (h' : SameName m' m'') :
    SameName m m'' :=
  ⟨h'.name.trans h.name, h'.ns.trans h.ns⟩

theorem sameIdentity_machineAfter (w : World) (q : Request) (c : Answer) :
    SameIdentity w.machine (machineAfter w q c) := by
  unfold machineAfter
  split
  all_goals first
    | exact ⟨rfl, rfl, rfl, rfl⟩
    | split <;> exact ⟨rfl, rfl, rfl, rfl⟩

@[simp] theorem deletionTimestamp_machineAfter (w : World) (q : Request) (c : Answer) :
    (machineAfter w q c).deletionTimestamp = w.machine.deletionTimestamp := by
  unfold machineAfter
  split
  all_goals first
    | rfl
    | split <;> rfl

@[simp] theorem killSwitch_machineAfter (w : World) (q : Request) (c : Answer) :
    (machineAfter w q c).spec.killSwitch = w.machine.spec.killSwitch := by
  unfold machineAfter
  split
  all_goals first
    | rfl
    | split <;> rfl

theorem status_machineAfter {w : World} {q : Request} (c : Answer)
    (hq : ∀ p, q ≠ .patchStatus p) : (machineAfter w q c).status = w.machine.status := by
  unfold machineAfter
  split
  · exact absurd rfl (hq _)
  · split <;> rfl
  · split <;> rfl
  · rfl

theorem phase_eq_of_status {m m' : ScheduledMachine} (h : m'.status = m.status) :
    m'.phase = m.phase := by
  unfold ScheduledMachine.phase
  rw [h]

theorem phase_machineAfter {w : World} {q : Request} (c : Answer) (hq : q.setsPhase = false) :
    (machineAfter w q c).phase = w.machine.phase := by
  cases q with
  | patchStatus p =>
    have hp : p.phase = none := by simpa [Request.setsPhase] using hq
    simp only [machineAfter]
    split
    · simp [World.patchStatus, ScheduledMachine.phase, hp]
    · rfl
  | _ => exact phase_eq_of_status (status_machineAfter c (by simp))

theorem phase_machineAfter_move {w : World} {now : Instant} {phase : Phase}
    {reason message : String} {inSchedule : Bool} {c : Answer} :
    (machineAfter w (.patchStatus (phasePatch now phase reason message inSchedule)) c).phase =
      if c.applied then some phase else w.machine.phase := by
  simp only [machineAfter]
  split
  · simp [World.patchStatus, ScheduledMachine.phase, phasePatch]
  · rfl

theorem moves_of_phase_called {w : World} {r : ScheduledMachine} {h : Log} {q : Request} {c : Answer}
    {phase : Phase} (hq : Permitted r h q)
    (hphase : (machineAfter w q c).phase = some phase) :
    w.machine.phase = some phase ∨
      ∃ reason, Moves r h phase reason := by
  cases hset : q.setsPhase with
  | false =>
    rw [phase_machineAfter c hset] at hphase
    exact Or.inl hphase
  | true =>
    cases hq with
    | quiet hq => simp [Request.setsPhase_of_steady (Request.steady_of_quiet hq)] at hset
    | move _ hm =>
      rw [phase_machineAfter_move] at hphase
      split at hphase
      · cases hphase
        exact Or.inr ⟨_, hm⟩
      · exact Or.inl hphase
    | _ => cases hset

theorem enabled_machineAfter {w : World} (q : Request) (c : Answer)
    (h : w.machine.spec.enabled = false) : (machineAfter w q c).spec.enabled = false := by
  cases q <;> simp only [machineAfter] <;> try exact h
  all_goals split <;> first | exact h | rfl

/-- An answer that shows a reclaim request. -/
def readsRequest : Sigma Response → Bool
  | ⟨.getNode _ _, .ok node⟩ => (nodeReclaimRequest node).isSome
  | _ => false

theorem not_reclaiming_of_reads {r : ScheduledMachine} {h : Log} (hh : h.any readsRequest = false) :
    ¬Reclaiming r h := by
  rintro ⟨nodeRef, client, node, _, _, hmem, hrequest⟩
  exact List.any_eq_false.mp hh _ hmem hrequest

structure StatusKept (w w' : World) : Prop where
  status : w'.machine.status = w.machine.status

theorem StatusKept.phase {w w' : World} (h : StatusKept w w') :
    w'.machine.phase = w.machine.phase :=
  phase_eq_of_status h.status

/-- A change of the surroundings that leaves the recorded status and the object names alone. -/
structure Undisturbed (w w' : World) : Prop extends StatusKept w w' where
  identity : SameIdentity w.machine w'.machine

/-- Until it records one itself, a reconcile in flight works on the stored phase. -/
def PhaseKept (w : World) (cur : Current Request Response World) : Prop :=
  NoPhase cur.done → w.machine.phase = cur.snapshot.machine.phase

theorem PhaseKept.started (w : World) : PhaseKept w ⟨w, []⟩ := fun _ => rfl

theorem PhaseKept.called {w : World} {cur : Current Request Response World} (h : PhaseKept w cur)
    (q : Request) (c : Answer) :
    PhaseKept (w.exec q c).2 ⟨cur.snapshot, ⟨q, (w.exec q c).1⟩ :: cur.done⟩ := by
  intro hn
  have hq : q.setsPhase = false := hn _ List.mem_cons_self
  rw [exec_machine, phase_machineAfter c hq]
  exact h fun x hx => hn x (List.mem_cons_of_mem _ hx)

/-- How the stored resource relates to the one the reconcile in flight was started on. -/
structure Tracks (w : World) (cur : Current Request Response World) : Prop where
  identity : SameIdentity cur.snapshot.machine w.machine
  phase : PhaseKept w cur

theorem Tracks.started (w : World) : Tracks w ⟨w, []⟩ := ⟨⟨rfl, rfl, rfl, rfl⟩, .started w⟩

theorem Tracks.moved {w w' : World} {cur : Current Request Response World} (h : Tracks w cur)
    (hu : Undisturbed w w') : Tracks w' cur :=
  ⟨h.identity.trans hu.identity, fun hn => hu.phase.trans (h.phase hn)⟩

theorem Tracks.called {w : World} {cur : Current Request Response World} (h : Tracks w cur)
    (q : Request) (c : Answer) :
    Tracks (w.exec q c).2 ⟨cur.snapshot, ⟨q, (w.exec q c).1⟩ :: cur.done⟩ where
  identity := by
    rw [exec_machine]
    exact h.identity.trans (sameIdentity_machineAfter w q c)
  phase := h.phase.called q c

end FiveSpot.Machine
