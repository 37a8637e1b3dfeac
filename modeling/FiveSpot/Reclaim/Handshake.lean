import FiveSpot.Machine.RapidReclaim
import FiveSpot.Reclaim.Agent

/-!
# The request on the Node

The agent raises a reclaim request by three annotations on its Node, the controller reads them and takes
them off. Between the two there is only the Node: the agent may be killed and started again at any
point, its answers may be lost, and others patch the Node as well. What is seen of the request is a flag
that is down, or up with the reason and the time of one match.
-/

namespace FiveSpot.Reclaim.Agent

set_option autoImplicit false

open Effects Effects.Prog
open Machine (NodePatch ReclaimRequest applyMap lookup_applyMap nodeReclaimRequest
  buildClearReclaimPatch reclaimRequestedAnnotation reclaimReasonAnnotation
  reclaimRequestedAtAnnotation reclaimRequestedValue)

section Flag

inductive Flag where
  | down
  | up (m : Match) (timestamp : String)

namespace Flag

/-- A flag goes up where it is down, and comes down; it does not change while it is up. -/
inductive Next : Flag → Flag → Prop where
  | stays (f : Flag) : Next f f
  | raised (m : Match) (timestamp : String) : Next .down (.up m timestamp)
  | lowered (f : Flag) : Next f .down

def request : Flag → Option ReclaimRequest
  | .down => none
  | .up m timestamp => some ⟨some (reclaimReason m), some timestamp⟩

end Flag

/-- The three annotations of a request. -/
structure Marks where
  requested : Option String
  reason : Option String
  requestedAt : Option String
  deriving DecidableEq

def marks (n : Machine.Node) : Marks where
  requested := n.annotations.lookup reclaimRequestedAnnotation
  reason := n.annotations.lookup reclaimReasonAnnotation
  requestedAt := n.annotations.lookup reclaimRequestedAtAnnotation

def Flag.marks : Flag → Marks
  | .down => ⟨none, none, none⟩
  | .up m timestamp => ⟨some reclaimRequestedValue, some (reclaimReason m), some timestamp⟩

def requestKeys : List String :=
  [ reclaimRequestedAnnotation, reclaimReasonAnnotation, reclaimRequestedAtAnnotation]

theorem marks_buildPatchBody (m : Match) (timestamp : String) (n : Machine.Node) :
    marks ((buildPatchBody m timestamp).apply n) = (Flag.up m timestamp).marks := by
  simp [marks, Flag.marks, buildPatchBody, NodePatch.apply, applyMap, Machine.StringMap.lookup_insert,
    reclaimRequestedAnnotation, reclaimReasonAnnotation, reclaimRequestedAtAnnotation]

theorem marks_buildClearReclaimPatch (n : Machine.Node) :
    marks (buildClearReclaimPatch.apply n) = Flag.down.marks := by
  simp only [marks, buildClearReclaimPatch, NodePatch.apply, applyMap, List.foldl_cons, List.foldl_nil,
    Machine.StringMap.lookup_filter_ne, ite_self, if_true]
  rfl

theorem marks_apply_of_foreign {p : NodePatch} (n : Machine.Node)
    (hp : (p.annotations.all fun (key, _) => !requestKeys.contains key) = true) :
    marks (p.apply n) = marks n := by
  have hkey : ∀ k ∈ requestKeys, (p.annotations.all fun (key, _) => key != k) = true := by
    intro k hk
    rw [List.all_eq_true] at hp ⊢
    rintro ⟨key, value⟩ hmem
    have hnot : key ∉ requestKeys := by simpa using hp _ hmem
    exact bne_iff_ne.mpr fun heq => hnot (heq ▸ hk)
  unfold marks
  simp only [NodePatch.apply]
  rw [lookup_applyMap (hkey _ (by simp [requestKeys])), lookup_applyMap (hkey _ (by simp [requestKeys])),
    lookup_applyMap (hkey _ (by simp [requestKeys]))]

theorem nodeReclaimRequest_of_marks {n : Machine.Node} {f : Flag} (hn : marks n = f.marks) :
    nodeReclaimRequest n = f.request := by
  obtain ⟨hrequested, hreason, htime⟩ := Marks.mk.inj hn
  unfold nodeReclaimRequest
  rw [hrequested, hreason, htime]
  cases f <;> rfl

/-- The test of the agent is the one of the controller. -/
theorem alreadyRequested_eq (n : Machine.Node) :
    alreadyRequested n.annotations = (nodeReclaimRequest n).isSome := by
  unfold alreadyRequested nodeReclaimRequest
  split
  · rename_i h
    simp [h]
  · rename_i h
    simpa using h

/-- The flag as it is seen in the world; where there is no Node it is down. -/
structure Shows (w : World) (f : Flag) : Prop where
  marks : ∀ n, w.node = some n → marks n.node = f.marks
  absent : w.node = none → f = .down

theorem Shows.down_of_unrequested {w : World} {f : Flag} {n : HostNode} (hshows : Shows w f)
    (hn : w.node = some n) (hnot : alreadyRequested n.node.annotations = false) : f = .down := by
  rw [alreadyRequested_eq, nodeReclaimRequest_of_marks (hshows.marks n hn)] at hnot
  cases f with
  | down => rfl
  | up m timestamp => cases hnot

theorem Shows.eq_down {w : World} {f : Flag} (hshows : Shows w f) (hdown : Shows w .down) :
    f = .down := by
  cases hnode : w.node with
  | none => exact hshows.absent hnode
  | some n =>
    have hmarks := (hshows.marks n hnode).symm.trans (hdown.marks n hnode)
    cases f with
    | down => rfl
    | up m timestamp => cases hmarks

end Flag

section Protocol

/-- What others do: the controller takes a request off, the Node and its other annotations come and go,
and the watcher of the ConfigMap sends a config. -/
inductive Others (w : World) : World → Prop where
  | cleared {n : HostNode} : w.node = some n →
      Others w { w with node := some { n with node := buildClearReclaimPatch.apply n.node } }
  | patched {n : HostNode} {p : NodePatch} : w.node = some n →
      (p.annotations.all fun (key, _) => !requestKeys.contains key) = true →
      Others w { w with node := some { n with node := p.apply n.node } }
  | removed : Others w { w with node := none }
  | registered {n : HostNode} : w.node = none → marks n.node = Flag.down.marks →
      Others w { w with node := some n }
  | configured (config : Option Config) : Others w { w with config := config }

abbrev AgentView := View Call Reply World Moment (Except AgentError Ending)

abbrev AgentGuard := Guard Call Reply World Moment (Except AgentError Ending)

def handshakeGuard : AgentGuard where
  move v w := Others v.world w
  start _ := True
  call _ _ _ := True
  crash _ := True

theorem Others.next {w w' : World} {f : Flag} (ho : Others w w') (hshows : Shows w f) :
    ∃ f', Shows w' f' ∧ f.Next f' ∧ (f = .down → f' = .down) := by
  cases ho with
  | cleared hn =>
    refine ⟨.down, ⟨fun n' hn' => ?_, fun _ => rfl⟩, .lowered f, fun _ => rfl⟩
    cases hn'
    exact marks_buildClearReclaimPatch _
  | @patched n p hn hp =>
    refine ⟨f, ⟨fun n' hn' => ?_, fun h => (by cases h)⟩, .stays f, id⟩
    cases hn'
    exact (marks_apply_of_foreign n.node hp).trans (hshows.marks n hn)
  | removed => exact ⟨.down, ⟨fun n' hn' => (by cases hn'), fun _ => rfl⟩, .lowered f, fun _ => rfl⟩
  | registered hnone hmarks =>
    obtain rfl := hshows.absent hnone
    refine ⟨.down, ⟨fun n' hn' => ?_, fun h => (by cases h)⟩, .stays _, id⟩
    cases hn'
    exact hmarks
  | configured config => exact ⟨f, ⟨hshows.marks, hshows.absent⟩, .stays f, id⟩

theorem exec_snd_of_aside {w : World} {c : Call} {t : Moment} (hc : c.patches = false) :
    (w.exec c t).2 = w := by
  cases c <;> first | rfl | cases hc

/-- The flag is down while a process watches. -/
structure Watched (v : AgentView) : Prop where
  flag : ∃ f, Shows v.world f
  down : ∀ cur, v.current = some cur → Watching cur.done → Shows v.world .down

theorem Watched.looked {v : AgentView} {cur : Current Call Reply World} {c : Call} {t : Moment}
    (hW : Watched v) (hcur : v.current = some cur) (hc : c.patches = false)
    (hwatching : Watching (⟨c, (v.world.exec c t).1⟩ :: cur.done)) : Shows v.world .down := by
  have hunsent : ∀ x ∈ cur.done, x.1.patches = false :=
    fun x hx => hwatching.unsent x (List.mem_cons_of_mem _ hx)
  obtain ⟨node, hlook, hnot⟩ := hwatching.unrequested
  cases hbefore : firstLook cur.done with
  | some answer =>
    rw [firstLook, hbefore, Option.some_or] at hlook
    exact hW.down cur hcur ⟨⟨node, hbefore.trans hlook, hnot⟩, hunsent⟩
  | none =>
    rw [firstLook, hbefore, Option.none_or] at hlook
    -- this is the first look itself
    cases c with
    | getNode =>
      have hread : readAnswer t.answer (v.world.node.elim notFound .ok) = .ok node :=
        Option.some.inj hlook
      have hread := readAnswer_eq_ok hread
      obtain ⟨f, hshows⟩ := hW.flag
      cases hnode : v.world.node with
      | none =>
        rw [hnode] at hread
        cases hread
      | some n =>
        rw [hnode] at hread
        cases hread
        exact hshows.down_of_unrequested hnode hnot ▸ hshows
    | _ => cases hlook

theorem shows_patched {w : World} {m : Match} {timestamp : String} (t : Moment)
    (hdown : Shows w .down) :
    ∃ f, Shows (w.exec (.patchNode (buildPatchBody m timestamp)) t).2 f ∧ Flag.down.Next f := by
  cases hnode : w.node with
  | none =>
    have hsame : (w.exec (.patchNode (buildPatchBody m timestamp)) t).2 = w := by
      simp only [World.exec, World.patchNode, hnode]
      rcases t.answer with _ | ⟨e, _ | _⟩ <;> rfl
    rw [hsame]
    exact ⟨.down, hdown, .stays _⟩
  | some n =>
    have hafter : (w.exec (.patchNode (buildPatchBody m timestamp)) t).2 =
        if t.answer.applied then
          { w with node := some { n with node := (buildPatchBody m timestamp).apply n.node } }
        else w := by
      simp only [World.exec, World.patchNode, hnode, writeAnswer_ok_snd]
    rw [hafter]
    split
    · refine ⟨.up m timestamp, ⟨fun n' hn' => ?_, fun h => (by cases h)⟩, .raised m timestamp⟩
      cases hn'
      exact marks_buildPatchBody m timestamp n.node
    · exact ⟨.down, hdown, .stays _⟩

theorem Watched.called {args : Args} {v : AgentView} {cur : Current Call Reply World} {c : Call}
    {f : Flag} (t : Moment) (hW : Watched v) (hcur : v.current = some cur)
    (hc : Permits args cur.done c) (hshows : Shows v.world f) :
    ∃ f', Shows (v.world.exec c t).2 f' ∧ f.Next f' := by
  cases hc with
  | aside hc =>
    rw [exec_snd_of_aside hc]
    exact ⟨f, hshows, .stays f⟩
  | patch hwarranted =>
    obtain ⟨m, timestamp, -, -, rfl⟩ := hwarranted.found
    have hdown := hW.down cur hcur hwarranted.watching
    rw [hshows.eq_down hdown]
    exact shows_patched t hdown

theorem watched_preserved (args : Args) (turns : Nat) :
    (agentContract args).Preserves (agentSystem args turns) handshakeGuard Watched where
  move v w hW ho := by
    obtain ⟨f, hshows⟩ := hW.flag
    obtain ⟨f', hafter, -, -⟩ := Others.next ho hshows
    refine ⟨⟨f', hafter⟩, fun cur hcur hwatching => ?_⟩
    obtain ⟨f'', hafter, -, hdown⟩ := Others.next ho (hW.down cur hcur hwatching)
    exact hdown rfl ▸ hafter
  start v hW _ _ := by
    refine ⟨agentContract_binds args turns _, hW.flag, ?_⟩
    rintro cur ⟨⟩ hwatching
    obtain ⟨node, hlook, -⟩ := hwatching.unrequested
    cases hlook
  call v cur c t hW hcur hc _ := by
    obtain ⟨f, hshows⟩ := hW.flag
    obtain ⟨f', hafter, -⟩ := hW.called t hcur hc hshows
    refine ⟨trivial, ⟨f', hafter⟩, ?_⟩
    rintro cur' ⟨⟩ hwatching
    have hnot : c.patches = false := hwatching.unsent _ List.mem_cons_self
    show Shows (v.world.exec c t).2 .down
    rw [exec_snd_of_aside hnot]
    exact hW.looked hcur hnot hwatching
  finish v cur a hW _ _ := ⟨hW.flag, fun cur' h => (by cases h)⟩
  crash v hW _ := ⟨hW.flag, fun cur' h => (by cases h)⟩

/--
The request on the Node is a flag: over every run of the agent's processes and of what others do, it goes
up whole where it is down, stays as it is while it is up, and is taken down whole. The controller reads
the reason and the time that were raised.
-/
theorem request_is_a_flag (args : Args) (turns : Nat) (w : World) (es : List (Event World Moment))
    (e : Event World Moment) (hw : Shows w .down)
    (hes : handshakeGuard.Allows (agentSystem args turns) (.idle w) (es ++ [e])) :
    ∃ f f', Shows ((agentSystem args turns).run (.idle w) es).world f ∧
      Shows ((agentSystem args turns).run (.idle w) (es ++ [e])).world f' ∧ f.Next f' ∧
      ∀ n, ((agentSystem args turns).run (.idle w) (es ++ [e])).world.node = some n →
        nodeReclaimRequest n.node = f'.request := by
  obtain ⟨hpast, hlast, -⟩ := Guard.allows_append.mp hes
  obtain ⟨hW, hgoverns⟩ := (watched_preserved args turns).run (c := .idle w)
    ⟨⟨.down, hw⟩, fun cur h => (by cases h)⟩ Contract.governs_idle hpast
  obtain ⟨f, hshows⟩ := hW.flag
  have hstep : ∃ f', Shows ((agentSystem args turns).run (.idle w) (es ++ [e])).world f' ∧
      f.Next f' := by
    rw [System.run_append]
    refine hgoverns.step_world (S := agentSystem args turns)
      (P := fun w' => ∃ f', Shows w' f' ∧ f.Next f') hlast ⟨f, hshows, .stays f⟩ (fun w' ho => ?_)
      (fun cur c t hcur hc => hW.called t hcur hc hshows) ⟨f, hshows, .stays f⟩
    obtain ⟨f', hafter, hnext, -⟩ := Others.next ho hshows
    exact ⟨f', hafter, hnext⟩
  obtain ⟨f', hafter, hnext⟩ := hstep
  exact ⟨f, f', hshows, hafter, hnext, fun n hn => nodeReclaimRequest_of_marks (hafter.marks n hn)⟩

theorem sample_request_is_a_flag :
    ∃ f f', Shows ((agentSystem sampleArgs 1).run (.idle sampleWorld) sampleUntilPatch).world f ∧
      Shows ((agentSystem sampleArgs 1).run (.idle sampleWorld)
        (sampleUntilPatch ++ [.next sampleMoment])).world f' ∧ f.Next f' ∧
      ∀ n, ((agentSystem sampleArgs 1).run (.idle sampleWorld)
          (sampleUntilPatch ++ [.next sampleMoment])).world.node = some n →
        nodeReclaimRequest n.node = f'.request := by
  refine request_is_a_flag sampleArgs 1 sampleWorld sampleUntilPatch (.next sampleMoment) ?_ ?_
  · refine ⟨fun n hn => ?_, fun h => (by cases h)⟩
    cases hn
    rfl
  · exact Guard.allows_of_unmoved (fun _ => trivial) (fun _ _ _ => trivial) (fun _ => trivial) rfl

end Protocol

end FiveSpot.Reclaim.Agent
