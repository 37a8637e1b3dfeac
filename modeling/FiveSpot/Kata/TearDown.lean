import FiveSpot.Kata.Loaded
import FiveSpot.Machine.RapidReclaim

/-!
# The tear-down of the drop-in

The DaemonSet runs the agent on the Nodes with the opt-in label. The controller sets the label together
with the reference and takes off only the reference; the agent takes off the label after it has removed
the drop-in. So the drop-in does not outlive the agent, unless a reference is set between the read and
the last patch of a tick that tears down.
-/

namespace FiveSpot.Kata

set_option autoImplicit false

open Effects Effects.Prog Utf8
open Machine (NodePatch KataConfig applyMap lookup_applyMap kataConfigLabel kataConfigLabelEnabled
  kataConfigRefAnnotation kataDeliverPatch buildKataConfigRefAnnotationPatch
  reconcileKataConfigDelivery)

section Patches

def optIn (n : Machine.Node) : Option String := n.labels.lookup kataConfigLabel

theorem optIn_recordPatch (n : Machine.Node) (hash : String) :
    optIn ((recordPatch hash).apply n) = optIn n := rfl

theorem optIn_kataDeliverPatch (n : Machine.Node) (kata : KataConfig) :
    optIn ((kataDeliverPatch kata).apply n) = some kataConfigLabelEnabled := by
  simp [optIn, kataDeliverPatch, NodePatch.apply, applyMap, Machine.StringMap.lookup_insert]

theorem refText_withdrawn (n : Machine.Node) :
    refText ((buildKataConfigRefAnnotationPatch none).apply n) = none := by
  simp [refText, buildKataConfigRefAnnotationPatch, NodePatch.apply, applyMap,
    Machine.StringMap.lookup_filter_ne]

/-- A patch of others, which concerns neither the label nor the reference. -/
structure Foreign (p : NodePatch) : Prop where
  labels : (p.labels.all fun (key, _) => key != kataConfigLabel) = true
  annotations : (p.annotations.all fun (key, _) => key != kataConfigRefAnnotation) = true

theorem Foreign.optIn {p : NodePatch} (hp : Foreign p) (n : Machine.Node) :
    optIn (p.apply n) = Kata.optIn n :=
  lookup_applyMap hp.labels

theorem Foreign.refText {p : NodePatch} (hp : Foreign p) (n : Machine.Node) :
    refText (p.apply n) = Kata.refText n :=
  lookup_applyMap hp.annotations

inductive Steers : NodePatch → Prop where
  | deliver (kata : KataConfig) : Steers (kataDeliverPatch kata)
  | withdraw : Steers (buildKataConfigRefAnnotationPatch none)

def steersNode (nodeName : String) (q : Machine.Request) : Prop :=
  ∀ client name p, q = .patchNode client name p → name = nodeName ∧ Steers p

theorem uses_kataConfigDelivery (client : Machine.Client) (nodeName : String)
    (kata : Option KataConfig) :
    (reconcileKataConfigDelivery client nodeName kata).run.Uses (steersNode nodeName) := by
  have hpatch : ∀ {p : NodePatch}, Steers p →
      steersNode nodeName (.patchNode client nodeName p) := by
    rintro p hp client' name' p' ⟨⟩
    exact ⟨rfl, hp⟩
  have hquiet : ∀ {q : Machine.Request}, (∀ client name p, q ≠ .patchNode client name p) →
      steersNode nodeName q := fun hq client' name' p' heq => absurd heq (hq _ _ _)
  have hor : ∀ {α : Type} (x : Except KubeError α),
      (Machine.orKubeError x).run.Uses (steersNode nodeName) := by
    intro α x
    cases x with
    | ok a => exact uses_run_pure a
    | error e => exact uses_run_throw _
  cases kata with
  | none =>
    refine uses_run_bind ((uses_run_ask _).mpr (hpatch .withdraw)) fun x => ?_
    exact uses_run_bind (hor x) fun _ => uses_run_pure _
  | some kata =>
    refine uses_run_bind ((uses_run_ask _).mpr (hquiet (by rintro _ _ _ ⟨⟩))) fun x => ?_
    refine uses_run_bind (hor x) fun present => ?_
    split
    · refine uses_run_bind ((uses_run_ask _).mpr (hpatch (.deliver kata))) fun y => ?_
      exact uses_run_bind (hor y) fun _ => uses_run_pure _
    · refine uses_run_bind ((uses_run_ask _).mpr (hquiet (by rintro _ _ _ ⟨⟩))) fun y => ?_
      refine uses_run_bind (hor y) fun nsPresent => ?_
      refine uses_run_bind ((uses_run_ask _).mpr (hpatch .withdraw)) fun z => ?_
      exact uses_run_bind (hor z) fun _ => uses_run_pure _

end Patches

def TearingDown (cli : Agent) (v : AgentView) : Prop :=
  ∃ cur node, v.current = some cur ∧ Unsought cli cur.done node

inductive Moved (cli : Agent) (v : AgentView) : Option Machine.Node → Option Machine.Node → Prop where
  | kept (n : Option Machine.Node) : Moved cli v n n
  | foreign {p : NodePatch} (n : Machine.Node) : Foreign p → Moved cli v (some n) (some (p.apply n))
  | withdrawn (n : Machine.Node) :
      Moved cli v (some n) (some ((buildKataConfigRefAnnotationPatch none).apply n))
  | delivered (n : Machine.Node) (kata : KataConfig) : ¬ TearingDown cli v →
      Moved cli v (some n) (some ((kataDeliverPatch kata).apply n))

/-- Others keep the files of the agent and steer it by its Node; a reference is not set while a tick tears
down. -/
def steeredGuard (cli : Agent) : AgentGuard where
  move v w' := SameFiles cli v.world w' ∧
    Moved cli v (v.world.nodes cli.nodeName) (w'.nodes cli.nodeName)
  start _ := True
  call _ _ _ := True
  crash _ := True

/-- A Node without the label has no reference, and its host no drop-in. -/
structure Settled (cli : Agent) (w : World) : Prop where
  signed : ∀ n, w.nodes cli.nodeName = some n → optIn n = none → refText n = none
  clean : ∀ n, w.nodes cli.nodeName = some n → optIn n = none → w.files (w.hostFile cli) = none

/-- The tick in flight and the Node. -/
structure InStep (cli : Agent) (w : World) (h : Log) : Prop where
  tracks : Tracks cli w h
  sought : ∀ node, Saw cli h node → refText node ≠ none →
    ∀ n, w.nodes cli.nodeName = some n → optIn n ≠ none
  unsought : ∀ node, Saw cli h node → refText node = none →
    ∀ n, w.nodes cli.nodeName = some n → refText n = none
  unwritten : ∀ n, w.nodes cli.nodeName = some n → optIn n = none → Calm h → Unwritten h
  once : ∀ node node', Saw cli h node → Saw cli h node' → node = node'

structure Orderly (cli : Agent) (v : AgentView) : Prop where
  settled : Settled cli v.world
  flight : ∀ cur, v.current = some cur → InStep cli v.world cur.done

section Orderly

variable {sha256 : Bytes → Bytes} {cli : Agent} {v : AgentView} {cur : Current Call Result World}
  {w w' : World} {h : Log}

theorem InStep.nil : InStep cli w [] where
  tracks := .nil
  sought := by rintro node ⟨⟩
  unsought := by rintro node ⟨⟩
  unwritten := by rintro n - - - x ⟨⟩
  once := by rintro node node' ⟨⟩

/-- How the Node after a move goes back to one before it: the label is not taken off, and no reference
comes to a Node that is being torn down or has no label. -/
structure Back (cli : Agent) (w : World) (tearing : Prop) (n' n : Machine.Node) : Prop where
  node : w.nodes cli.nodeName = some n
  optIn : optIn n' = none → optIn n = none
  refText : tearing ∨ Kata.optIn n' = none → refText n = none → refText n' = none

theorem Moved.back {n' : Machine.Node} (h : Moved cli v (v.world.nodes cli.nodeName) (some n')) :
    ∃ n, Back cli v.world (TearingDown cli v) n' n := by
  generalize hbefore : v.world.nodes cli.nodeName = before at h
  cases h with
  | kept => exact ⟨n', hbefore, id, fun _ => id⟩
  | foreign n hp =>
    exact ⟨n, hbefore, (hp.optIn n).symm.trans, fun _ => (hp.refText n).trans⟩
  | withdrawn n => exact ⟨n, hbefore, id, fun _ _ => refText_withdrawn n⟩
  | delivered n kata hnot =>
    have hlabel := optIn_kataDeliverPatch n kata
    refine ⟨n, hbefore, fun hnone => ?_, fun hflight _ => ?_⟩
    · cases hlabel.symm.trans hnone
    · rcases hflight with hflight | hnone
      · exact absurd hflight hnot
      · cases hlabel.symm.trans hnone

theorem InStep.moved (hv : InStep cli w h) (hfiles : SameFiles cli w w')
    (hback : ∀ n', w'.nodes cli.nodeName = some n' →
      ∃ n, Back cli w (∃ node, Unsought cli h node) n' n) : InStep cli w' h where
  tracks := hv.tracks.same hfiles
  sought node hsaw hne n' hn' hnone := by
    obtain ⟨n, hn, hoptIn, -⟩ := hback n' hn'
    exact hv.sought node hsaw hne n hn (hoptIn hnone)
  unsought node hsaw hnone n' hn' := by
    obtain ⟨n, hn, -, href⟩ := hback n' hn'
    exact href (.inl ⟨node, hsaw, hnone⟩) (hv.unsought node hsaw hnone n hn)
  unwritten n' hn' hnone := by
    obtain ⟨n, hn, hoptIn, -⟩ := hback n' hn'
    exact hv.unwritten n hn (hoptIn hnone)
  once := hv.once

theorem Orderly.moved (hv : Orderly cli v) (hG : (steeredGuard cli).move v w') :
    Orderly cli (v.moved w') := by
  obtain ⟨hfiles, hmoved⟩ := hG
  refine ⟨⟨fun n' hn' hnone => ?_, fun n' hn' hnone => ?_⟩, fun cur hcur => ?_⟩
  · obtain ⟨n, hn, hoptIn, href⟩ := Moved.back (hn' ▸ hmoved)
    exact href (.inr hnone) (hv.settled.signed n hn (hoptIn hnone))
  · obtain ⟨n, hn, hoptIn, -⟩ := Moved.back (hn' ▸ hmoved)
    change w'.files (w'.hostFile cli) = none
    rw [hfiles.hostFile, hfiles.files _ (.inl rfl)]
    exact hv.settled.clean n hn (hoptIn hnone)
  · refine (hv.flight cur hcur).moved hfiles fun n' hn' => ?_
    obtain ⟨n, hn, hoptIn, href⟩ := Moved.back (hn' ▸ hmoved)
    exact ⟨n, hn, hoptIn, fun hflight => href (hflight.imp_left fun ⟨node, hunsought⟩ =>
      ⟨cur, node, hcur, hunsought⟩)⟩

theorem InStep.keepsFiles (hv : InStep cli w h) (hsettled : Settled cli w) {n : Machine.Node}
    (hn : w.nodes cli.nodeName = some n) (hnone : optIn n = none) {r : Call}
    (hr : Permitted sha256 cli h r) : r.changesFiles = false := by
  by_contra hchanges
  rw [Bool.not_eq_false] at hchanges
  have hcalm := hr.calm (by cases r <;> first | rfl | cases hchanges)
  obtain ⟨_, _, _, ⟨dest, held, content, hplaced, hwanted, hknown, hne⟩ | ⟨x, hx, hwrote⟩⟩ :=
    hr.touches hchanges
  · obtain rfl := hv.tracks.placed hplaced
    have hheld := (hv.tracks.files _ held (.inl rfl) hknown).symm.trans (hsettled.clean n hn hnone)
    cases hwanted with
    | nothing => exact hne (congrArg (mark sha256) hheld)
    | @content node _ _ hsought =>
      obtain ⟨raw, href, -⟩ := hsought.ref
      exact hv.sought node hsought.saw (by simp [href]) n hn hnone
  · simp [hv.unwritten n hn hnone hcalm x hx] at hwrote

theorem Tracks.clean (hv : Tracks cli w h) (hs : Synced sha256 cli h none) :
    w.files (w.hostFile cli) = none := by
  have hmark := hv.synced hs
  cases hfile : w.files (w.hostFile cli) with
  | none => rfl
  | some bytes =>
    rw [hfile] at hmark
    exact absurd hmark (sha256Hex_ne_absent bytes)

inductive Patched (sha256 : Bytes → Bytes) (cli : Agent) (w : World) (h : Log) (r : Call) (w' : World) :
    Prop where
  | kept : w'.nodes = w.nodes → Patched sha256 cli w h r w'
  | recorded (n n' : Machine.Node) : w.nodes cli.nodeName = some n →
      w'.nodes cli.nodeName = some n' → optIn n' = optIn n → refText n' = refText n →
      r.announces = true → w'.files = w.files → Patched sha256 cli w h r w'
  | cleared (n n' : Machine.Node) {node : Machine.Node} : w.nodes cli.nodeName = some n →
      w'.nodes cli.nodeName = some n' → refText n' = refText n → Unsought cli h node →
      Synced sha256 cli h none → r.announces = true → w'.files = w.files →
      Patched sha256 cli w h r w'

theorem Effect.patched {r : Call} (heffect : Effect cli w r w') (hr : Permitted sha256 cli h r) :
    Patched sha256 cli w h r w' := by
  cases heffect with
  | same | files _ | reload => exact .kept rfl
  | @node name p n hnode =>
    obtain ⟨rfl, -⟩ := hr.patch
    cases hr with
    | look _ hlooks => cases hlooks
    | touch _ hchanges => cases hchanges
    | clear _ hunsought hsynced =>
      exact .cleared n (clearPatch.apply n) hnode (by simp) (lookup_clearPatch n).1 hunsought hsynced rfl rfl
    | @record _ _ _ content _ =>
      exact .recorded n ((recordPatch (mark sha256 content)).apply n) hnode (by simp)
        (optIn_recordPatch n _) (lookup_recordPatch n _).1 rfl rfl

theorem Settled.called (hsettled : Settled cli w) (hv : InStep cli w h) {r : Call} (c : Reply)
    (hr : Permitted sha256 cli h r) : Settled cli (w.exec cli r c).2 := by
  have heffect : Effect cli w r (w.exec cli r c).2 := exec_effect w r c
  have hfile : (w.exec cli r c).2.files = w.files →
      (w.exec cli r c).2.files ((w.exec cli r c).2.hostFile cli) = w.files (w.hostFile cli) := by
    intro hfiles
    rw [heffect.hostFile, hfiles]
  cases heffect.patched hr with
  | kept hnodes =>
    refine ⟨fun n hn => hsettled.signed n (hnodes ▸ hn), fun n hn hnone => ?_⟩
    rw [hnodes] at hn
    rw [hfile (heffect.unchanged (hv.keepsFiles hsettled hn hnone hr))]
    exact hsettled.clean n hn hnone
  | recorded n n' hn hn' hoptIn href _ hfiles =>
    refine ⟨fun m hm hnone => ?_, fun m hm hnone => ?_⟩
    · obtain rfl := Option.some.inj (hn'.symm.trans hm)
      exact href.trans (hsettled.signed n hn (hoptIn.symm.trans hnone))
    · obtain rfl := Option.some.inj (hn'.symm.trans hm)
      exact (hfile hfiles).trans (hsettled.clean n hn (hoptIn.symm.trans hnone))
  | @cleared n n' node hn hn' href hunsought hsynced _ hfiles =>
    refine ⟨fun m hm _ => ?_, fun m hm _ => (hfile hfiles).trans (hv.tracks.clean hsynced)⟩
    obtain rfl := Option.some.inj (hn'.symm.trans hm)
    exact href.trans (hv.unsought node hunsought.saw hunsought.ref n hn)

/-- A tick reads its Node once, at its start. -/
theorem saw_called {r : Call} {c : Reply} {node : Machine.Node} (hr : Permitted sha256 cli h r)
    (hsaw : Saw cli (⟨r, (w.exec cli r c).1⟩ :: h) node) :
    (h = [] ∧ w.nodes cli.nodeName = some node ∧ (w.exec cli r c).2 = w) ∨ Saw cli h node := by
  rcases mem_called hsaw with ⟨rfl, hanswer⟩ | hbefore
  · left
    cases hr with
    | getNode => exact ⟨rfl, exec_getNode_ok hanswer, rfl⟩
    | look _ hlooks => cases hlooks
    | touch _ hchanges => cases hchanges
  · exact Or.inr hbefore

theorem InStep.called (hv : InStep cli w h) (hsettled : Settled cli w) {r : Call} (c : Reply)
    (hr : Permitted sha256 cli h r) :
    InStep cli (w.exec cli r c).2 (⟨r, (w.exec cli r c).1⟩ :: h) := by
  have heffect : Effect cli w r (w.exec cli r c).2 := exec_effect w r c
  have hpatched := heffect.patched hr
  refine ⟨hv.tracks.called hr, fun node hsaw hne n' hn' hnone => ?_, fun node hsaw hnone n' hn' => ?_,
    fun n' hn' hnone hcalm => ?_, fun node node' hsaw hsaw' => ?_⟩
  · rcases saw_called hr hsaw with ⟨-, hnode, hsame⟩ | hbefore
    · rw [hsame] at hn'
      obtain rfl := Option.some.inj (hnode.symm.trans hn')
      exact hne (hsettled.signed node hnode hnone)
    · cases hpatched with
      | kept hnodes => exact hv.sought node hbefore hne n' (hnodes ▸ hn') hnone
      | recorded n m hn hm hoptIn =>
        obtain rfl := Option.some.inj (hm.symm.trans hn')
        exact hv.sought node hbefore hne n hn (hoptIn.symm.trans hnone)
      | cleared n m hn hm _ hunsought =>
        obtain rfl := hv.once node _ hbefore hunsought.saw
        exact hne hunsought.ref
  · rcases saw_called hr hsaw with ⟨-, hnode, hsame⟩ | hbefore
    · rw [hsame] at hn'
      obtain rfl := Option.some.inj (hnode.symm.trans hn')
      exact hnone
    · cases hpatched with
      | kept hnodes => exact hv.unsought node hbefore hnone n' (hnodes ▸ hn')
      | recorded n m hn hm _ href | cleared n m hn hm href =>
        obtain rfl := Option.some.inj (hm.symm.trans hn')
        exact href.trans (hv.unsought node hbefore hnone n hn)
  · have hquiet : r.announces = false := hcalm _ List.mem_cons_self
    cases hpatched with
    | kept hnodes =>
      rw [hnodes] at hn'
      exact (hv.unwritten n' hn' hnone fun x hx => hcalm x (List.mem_cons_of_mem _ hx)).cons
        (hv.keepsFiles hsettled hn' hnone hr) _
    | recorded _ _ _ _ _ _ hloud | cleared _ _ _ _ _ _ _ hloud =>
      rw [hquiet] at hloud
      cases hloud
  · rcases saw_called hr hsaw with ⟨rfl, hnode, -⟩ | hbefore
    · rcases saw_called hr hsaw' with ⟨-, hnode', -⟩ | hbefore'
      · exact Option.some.inj (hnode.symm.trans hnode')
      · cases hbefore'
    · rcases saw_called hr hsaw' with ⟨rfl, -, -⟩ | hbefore'
      · cases hbefore
      · exact hv.once node node' hbefore hbefore'

end Orderly

theorem orderly_preserved (sha256 : Bytes → Bytes) (cli : Agent) :
    (agentContract sha256 cli).Preserves (agentSystem sha256 cli) (steeredGuard cli)
      (Orderly cli) where
  move _ _ hv hG := hv.moved hG
  start v hv _ _ := by
    refine ⟨agentContract_binds sha256 cli v.world, hv.settled, ?_⟩
    rintro cur ⟨⟩
    exact .nil
  call v cur r c hv hcur hr _ := by
    have hflight := hv.flight cur hcur
    refine ⟨trivial, hv.settled.called hflight c hr, ?_⟩
    rintro cur' ⟨⟩
    exact hflight.called hv.settled c hr
  finish v cur a hv _ _ := ⟨hv.settled, by rintro cur' ⟨⟩⟩
  crash v hv _ := ⟨hv.settled, by rintro cur' ⟨⟩⟩

/--
The controller patches the Node only to set label and reference together or to take off the reference. In
every run in which it does so, and sets no reference while a tick tears down, the Node is without the
label only when it has no reference and the drop-in is gone from the host, whatever fails and wherever the
agent is killed.
-/
theorem optout_leaves_host_clean (sha256 : Bytes → Bytes) (cli : Agent) :
    (∀ client nodeName kata,
      (reconcileKataConfigDelivery client nodeName kata).run.Uses (steersNode nodeName)) ∧
    ∀ (w : World) (es : List (Event World Reply)), Settled cli w →
      (steeredGuard cli).Allows (agentSystem sha256 cli) (.idle w) es →
      Settled cli ((agentSystem sha256 cli).run (.idle w) es).world := by
  refine ⟨uses_kataConfigDelivery, fun w es hsettled hG => ?_⟩
  have hinit : Orderly cli (⟨w, [], none⟩ : AgentView) := ⟨hsettled, by rintro cur ⟨⟩⟩
  exact ((orderly_preserved sha256 cli).run_idle hinit hG).settled

section Sample

/-- The reference was taken away from a Node with the drop-in: one tick removes the drop-in and the label. -/
theorem sample_optout_is_clean :
    ((sampleAgent.run (.idle sampleWithdrawn) (tickFor 8)).world.nodes "worker").map optIn = some none ∧
      Settled sampleCli (sampleAgent.run (.idle sampleWithdrawn) (tickFor 8)).world := by
  refine ⟨by decide +kernel, (optout_leaves_host_clean _ sampleCli).2 sampleWithdrawn (tickFor 8) ?_ ?_⟩
  · have hlabel : (sampleWithdrawn.nodes sampleCli.nodeName).map optIn =
        some (some kataConfigLabelEnabled) := by
      decide +kernel
    have hnot : ∀ n, sampleWithdrawn.nodes sampleCli.nodeName = some n → optIn n ≠ none := by
      intro n hn hnone
      simp [hn, hnone] at hlabel
    exact ⟨fun n hn hnone => absurd hnone (hnot n hn), fun n hn hnone => absurd hnone (hnot n hn)⟩
  · exact Guard.allows_of_unmoved (fun _ => trivial) (fun _ _ _ => trivial) (fun _ => trivial) rfl

def sampleSource : KataConfig := ⟨.configMap, "a", "n", "k", "k.service"⟩

def patchedBy (p : NodePatch) (c : AgentConfig) : Event World Reply :=
  .move { c.world with nodes := fun name => (c.world.nodes name).map p.apply }

def thenPatched (es : List (Event World Reply)) (p : NodePatch) (es' : List (Event World Reply)) :
    List (Event World Reply) :=
  es ++ patchedBy p (sampleAgent.run (.idle sampleWithdrawn) es) :: es'

/-- The reference is set before the last patch of the tear-down and taken away after the next tick: the
label is gone and the drop-in stays. -/
def sampleRace : List (Event World Reply) :=
  thenPatched (thenPatched (tickFor 7) (kataDeliverPatch sampleSource) (.next .ok :: tickFor 15))
    (buildKataConfigRefAnnotationPatch none) []

theorem race_strands_file :
    ((sampleAgent.run (.idle sampleWithdrawn) sampleRace).world.nodes "worker").map
        (fun n => (optIn n, refText n)) = some (none, none) ∧
      (sampleAgent.run (.idle sampleWithdrawn) sampleRace).world.files
        (sampleWithdrawn.hostFile sampleCli) = some (asBytes "v") := by
  decide +kernel

end Sample

end FiveSpot.Kata
