import FiveSpot.Machine.Frame

/-!
# The Node a reconcile acts on

A drain during the shutdown starts from the Machine object; an emergency reclaim starts from the Node
named in the resource's own status, which may be out of date or written by somebody else. In both
cases what is done to a Node is compared here with the Node that the Machine itself names.
-/

namespace FiveSpot.Machine

set_option autoImplicit false

open Effects

def nodeOf (w : World) (k : ObjectKey) : Option String :=
  (w.objects k).bind fun o => (extractMachineRefs o.data).2.map fun r => r.name

def machineNode (w : World) : Option String :=
  w.machine.ns.bind fun ns => nodeOf w (machineKey ns w.machine.name)

theorem machineNode_eq_some {w : World} {n : String} :
    machineNode w = some n ↔
      ∃ ns, w.machine.ns = some ns ∧ nodeOf w (machineKey ns w.machine.name) = some n := by
  simp [machineNode, Option.bind_eq_some_iff]

theorem nodeOf_exec {w : World} {q : Request} {c : Answer} {k : ObjectKey} {n : String}
    (hk : nodeOf w k = some n) : nodeOf (w.exec q c).2 k = some n := by
  obtain ⟨o, ho, hnode⟩ := Option.bind_eq_some_iff.mp hk
  obtain ⟨o', ho', hdata⟩ := data_objectsAfter (q := q) (c := c) ho
  unfold nodeOf
  rw [exec_objects, ho']
  simpa [hdata] using hnode

theorem machineNode_exec {w : World} {n : String} (q : Request) (c : Answer)
    (hn : machineNode w = some n) : machineNode (w.exec q c).2 = some n := by
  obtain ⟨ns, hns, hnode⟩ := machineNode_eq_some.mp hn
  have hsame := (sameIdentity_machineAfter w q c).sameName
  refine machineNode_eq_some.mpr ⟨ns, ?_, ?_⟩
  · rw [exec_machine, hsame.ns, hns]
  · rw [exec_machine, hsame.name]
    exact nodeOf_exec hnode

theorem nodeOf_of_get {w : World} {c : Answer} {k : ObjectKey} {machine : Json} {nodeRef : NodeRef}
    (hanswer : (w.exec (.get k) c).1 = .ok machine)
    (href : (extractMachineRefs machine).2 = some nodeRef) : nodeOf w k = some nodeRef.name := by
  rcases c with _ | ⟨e, applied⟩
  · simp only [World.exec, readAnswer] at hanswer
    split at hanswer
    · rename_i o ho
      cases hanswer
      simp [nodeOf, ho, href]
    · cases hanswer
  · cases hanswer

def lastListed (h : Log) : Option String :=
  h.findSome? fun
    | ⟨.listPods _ node, _⟩ => some node
    | _ => none

theorem mem_of_lastListed {h : Log} {n : String} (hn : lastListed h = some n) :
    ∃ client x, ⟨.listPods client n, x⟩ ∈ h := by
  obtain ⟨⟨q, x⟩, hmem, hq⟩ := List.exists_of_findSome?_eq_some hn
  cases q with
  | listPods client node =>
    cases hq
    exact ⟨client, x, hmem⟩
  | _ => cases hq

/--
The Node a call of a reconcile of `r` acts on: it cordons it, lists or evicts its pods, takes its
reclaim request off, or disables the schedule because of it.
-/
def Request.actedNode (r : ScheduledMachine) (h : Log) : Request → Option String
  | .patchNode client node p =>
      if p.unschedulable.isSome || (Request.patchNode client node p).clears then some node else none
  | .listPods _ node => some node
  | .deletePod _ _ _ => lastListed h
  | .patchDisableSchedule => r.nodeRef.map fun nodeRef => nodeRef.name
  | _ => none

/-- During a reconcile nobody else changes the Machine's binding, and the Node of the status is found
with a reclaim request only if the Machine is bound to it. -/
def bindingGuard : MachineGuard where
  move v w := v.current.isSome = true →
    SameName v.world.machine w.machine ∧ machineNode w = machineNode v.world
  start _ := True
  call v q c := ∀ cur nodeRef client node, v.current = some cur →
    cur.snapshot.machine.nodeRef = some nodeRef → q = .getNode client nodeRef.name →
    (v.world.exec (.getNode client nodeRef.name) c).1 = .ok node →
    (nodeReclaimRequest node).isSome = true → machineNode v.world = some nodeRef.name
  crash _ := True

/-- What a reconcile in flight takes for its Node is the Machine's. -/
structure Anchored (w : World) (cur : Current Request Response World) : Prop where
  named : SameName cur.snapshot.machine w.machine
  bound : ∀ n, Bound cur.snapshot.machine cur.done n → machineNode w = some n
  listed : ∀ client n x, ⟨.listPods client n, x⟩ ∈ cur.done → machineNode w = some n

structure AllAnchored (v : MachineView) : Prop where
  flight : ∀ cur, v.current = some cur → Anchored v.world cur

section Step

variable {v : MachineView} {w : World} {cur : Current Request Response World} {q : Request}
  {c : Answer}

theorem Anchored.started (w : World) : Anchored w ⟨w, []⟩ where
  named := ⟨rfl, rfl⟩
  bound n hb := by
    cases hb with
    | reclaimed _ hmem | machine _ hmem => cases hmem
  listed client n x hmem := by cases hmem

theorem warranted_of_not_calm {r : ScheduledMachine} {h : Log} (hq : Permitted r h q)
    (hquiet : q.quiet = true) (hcalm : q.calm = false) : Warranted r h q := by
  cases hq with
  | quiet _ _ hw => exact hw hcalm
  | move => simp [Request.quiet, phasePatch] at hquiet
  | addFinalizer | dropFinalizer | creating | create | elapsed | delete | disableSchedule =>
    cases hquiet

theorem Anchored.acted {n : String} (hA : Anchored w cur)
    (hq : Permitted cur.snapshot.machine cur.done q)
    (hn : q.actedNode cur.snapshot.machine cur.done = some n) : machineNode w = some n := by
  cases q with
  | patchNode client node p =>
    simp only [Request.actedNode] at hn
    split at hn
    · rename_i hacts
      cases hn
      have hcalm : (Request.patchNode client n p).calm = false := by
        simp only [Request.calm, Request.drains, Request.quiet, Bool.true_and, Bool.not_eq_false',
          Bool.or_eq_true]
        exact Or.inl ((Bool.or_eq_true _ _).mp hacts)
      cases warranted_of_not_calm hq rfl hcalm with
      | patchNode hb => exact hA.bound _ hb
    · cases hn
  | listPods client node =>
    cases hn
    cases warranted_of_not_calm hq rfl rfl with
    | listPods hb => exact hA.bound _ hb
  | deletePod client ns name =>
    obtain ⟨client', x, hmem⟩ := mem_of_lastListed hn
    exact hA.listed client' n x hmem
  | patchDisableSchedule =>
    obtain ⟨nodeRef, href, rfl⟩ := Option.map_eq_some_iff.mp hn
    cases hq with
    | quiet hq => cases hq
    | disableSchedule _ hr =>
      obtain ⟨nodeRef', client, node, href', _, hmem, hrequest⟩ := hr
      cases href.symm.trans href'
      exact hA.bound _ (.reclaimed href hmem hrequest)
  | _ => cases hn

theorem Anchored.bound_called {n : String} (hA : Anchored v.world cur) (hcur : v.current = some cur)
    (hG : bindingGuard.call v q c)
    (hb : Bound cur.snapshot.machine (⟨q, (v.world.exec q c).1⟩ :: cur.done) n) :
    machineNode v.world = some n := by
  cases hb with
  | @reclaimed nodeRef client node href hmem hrequest =>
    rcases List.mem_cons.mp hmem with heq | hmem
    · obtain ⟨rfl, hanswer⟩ := Sigma.mk.inj heq
      exact hG cur nodeRef client node hcur href rfl (eq_of_heq hanswer).symm hrequest
    · exact hA.bound _ (.reclaimed href hmem hrequest)
  | @machine ns machine nodeRef hns hmem href =>
    rcases List.mem_cons.mp hmem with heq | hmem
    · obtain ⟨rfl, hanswer⟩ := Sigma.mk.inj heq
      refine machineNode_eq_some.mpr ⟨ns, hA.named.ns.trans hns, ?_⟩
      rw [hA.named.name]
      exact nodeOf_of_get (eq_of_heq hanswer).symm href
    · exact hA.bound _ (.machine hns hmem href)

theorem Anchored.called (hA : Anchored v.world cur) (hcur : v.current = some cur)
    (hq : Permitted cur.snapshot.machine cur.done q) (hG : bindingGuard.call v q c) :
    Anchored (v.world.exec q c).2 ⟨cur.snapshot, ⟨q, (v.world.exec q c).1⟩ :: cur.done⟩ where
  named := by
    rw [exec_machine]
    exact hA.named.trans (sameIdentity_machineAfter v.world q c).sameName
  bound n hb := machineNode_exec q c (hA.bound_called hcur hG hb)
  listed client n x hmem := by
    refine machineNode_exec q c ?_
    rcases List.mem_cons.mp hmem with heq | hmem
    · obtain ⟨rfl, _⟩ := Sigma.mk.inj heq
      exact hA.acted hq rfl
    · exact hA.listed client n x hmem

theorem allAnchored_preserved :
    machineContract.Preserves machineSystem bindingGuard AllAnchored where
  move v w hA hG := by
    refine ⟨fun cur hcur => ?_⟩
    have hcur : v.current = some cur := hcur
    obtain ⟨hsame, hnode⟩ := hG (by rw [hcur]; rfl)
    have hB := hA.flight cur hcur
    exact ⟨hB.named.trans hsame, fun n hb => hnode.trans (hB.bound n hb),
      fun client n x hmem => hnode.trans (hB.listed client n x hmem)⟩
  start v _ _ _ := by
    refine ⟨machineContract_binds _, ⟨?_⟩⟩
    rintro cur ⟨⟩
    exact .started v.world
  call v cur q c hA hcur hq hG := by
    refine ⟨trivial, ⟨?_⟩⟩
    rintro cur' ⟨⟩
    exact (hA.flight cur hcur).called hcur hq hG
  finish v cur a _ _ _ := ⟨fun cur' h => by cases h⟩
  crash v _ _ := ⟨fun cur' h => by cases h⟩

/-- What a reconcile does to a Node, it does to the Node its own Machine is bound to. If no two
Machines are bound to one Node, it is no other resource's. -/
theorem acts_on_bound_node (w : World) (es : List (Event World Answer))
    (hes : bindingGuard.Allows machineSystem (.idle w) es)
    (cur : Current Request Response World) (q : Request)
    (k : Response q → Prog Request Response (Except ReconcilerError Action)) (n : String)
    (hflight : (machineSystem.run (.idle w) es).inflight = some (cur, .call q k))
    (hn : q.actedNode cur.snapshot.machine cur.done = some n) :
    machineNode (machineSystem.run (.idle w) es).world = some n ∧
      ∀ key, nodeOf (machineSystem.run (.idle w) es).world key = some n →
        (∀ key' key'', nodeOf (machineSystem.run (.idle w) es).world key' = some n →
          nodeOf (machineSystem.run (.idle w) es).world key'' = some n → key' = key'') →
        key.name = (machineSystem.run (.idle w) es).world.machine.name ∧
          some key.ns = (machineSystem.run (.idle w) es).world.machine.ns := by
  have hinit : AllAnchored ⟨w, [], none⟩ := ⟨fun cur h => by cases h⟩
  obtain ⟨hA, hgoverns⟩ :=
    allAnchored_preserved.run (c := .idle w) hinit Contract.governs_idle hes
  have hcur : (machineSystem.run (.idle w) es).view.current = some cur := by
    simp [Config.view, hflight]
  have hnode := (hA.flight cur hcur).acted (hgoverns cur _ hflight).1 hn
  refine ⟨hnode, fun key hkey hone => ?_⟩
  obtain ⟨ns, hns, hmachine⟩ := machineNode_eq_some.mp hnode
  rw [hone key _ hkey hmachine]
  exact ⟨rfl, hns.symm⟩

end Step

section Runs

def actingOn (c : Config Request Response World Answer (Except ReconcilerError Action)) :
    Option String :=
  c.inflight.bind fun (cur, p) =>
    match p with
    | .call q _ => q.actedNode cur.snapshot.machine cur.done
    | .pure _ => none

theorem exists_of_actingOn
    {c : Config Request Response World Answer (Except ReconcilerError Action)} {n : String}
    (h : actingOn c = some n) :
    ∃ cur q k, c.inflight = some (cur, .call q k) ∧
      q.actedNode cur.snapshot.machine cur.done = some n := by
  obtain ⟨⟨cur, p⟩, hin, hp⟩ := Option.bind_eq_some_iff.mp h
  cases p with
  | pure a => cases hp
  | call q k => exact ⟨cur, q, k, hin, hp⟩

def bindingTests : Tests bindingGuard where
  start _ := true
  call v q c :=
    match q with
    | .getNode client name =>
        match (v.world.exec (.getNode client name) c).1 with
        | .ok node => (nodeReclaimRequest node).isNone || machineNode v.world == some name
        | .error _ => true
    | _ => true
  start_sound _ _ := trivial
  call_sound v q c h := by
    rintro cur nodeRef client node _ _ rfl hanswer hrequest
    obtain ⟨request, hrequest⟩ := Option.isSome_iff_exists.mp hrequest
    simpa [hanswer, hrequest] using h
  crash _ := true
  crash_sound _ _ := trivial

/-- A reclaim of the resource's own Node, up to the call that cordons it. -/
theorem reclaim_cordons_own_node :
    actingOn (machineSystem.run (.idle (requestSample sampleJoined.world)) (reconcileFor 10)) =
        some "node-1" ∧
      machineNode (machineSystem.run (.idle (requestSample sampleJoined.world))
        (reconcileFor 10)).world = some "node-1" := by
  have hacting : actingOn (machineSystem.run (.idle (requestSample sampleJoined.world))
      (reconcileFor 10)) = some "node-1" := by
    decide +kernel
  obtain ⟨cur, q, k, hflight, hn⟩ := exists_of_actingOn hacting
  refine ⟨hacting, (acts_on_bound_node _ _ ?_ cur q k "node-1" hflight hn).1⟩
  exact Tests.allows (T := bindingTests) (by decide +kernel)

def tamperSample (w : World) : World :=
  { w with
    machine := { w.machine with
      status := w.machine.status.map fun s =>
        { s with nodeRef := some ⟨"v1", "Node", "node-2", none⟩ } } }

/-- The other Node asks to be reclaimed: it is cordoned, its request is consumed and the schedule is
disabled, while the Machine is bound to the first Node all along. -/
theorem reclaim_consumes_foreign_request :
    let w := tamperSample (requestSample sampleJoined.world)
    let c := machineSystem.run (.idle w) (reconcileFor 10)
    let c' := machineSystem.run c (List.replicate 20 (.next .ok))
    machineNode c.world = some "node-1" ∧ actingOn c = some "node-2" ∧
      c'.inflight.isNone = true ∧ machineNode c'.world = some "node-1" ∧
      c'.world.machine.spec.enabled = false ∧
      (c'.world.nodes .management "node-2").any (fun node =>
        node.unschedulable && (nodeReclaimRequest node).isNone) = true := by
  decide +kernel

end Runs

end FiveSpot.Machine
