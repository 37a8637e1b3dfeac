import FiveSpot.Kata.Frame

/-!
# The restart-loop guard

As long as the reference and its source stay what they are, the hash to be applied is one and the same.
The agent restarts the service only when it has read another one, after it has recorded this one.
-/

namespace FiveSpot.Kata

set_option autoImplicit false

open Effects Utf8

def isRestart : AgentObs → Bool
  | .called _ (.command _) _ => true
  | _ => false

def restarts (t : List AgentObs) : Nat := t.countP isRestart

/--
Others keep the reference, its source and the agent's own annotation. They may do anything to the
files, any call may fail, and the agent may be killed at any time.
-/
def fixedGuard (cli : Agent) : AgentGuard where
  move v w' := SameSource cli v.world w' ∧ w'.applied cli = v.world.applied cli
  start _ := True
  call _ _ _ := True
  crash _ := True

/-- After a restart the hash of the source is the recorded one, and before it none was issued. -/
structure Once (sha256 : Bytes → Bytes) (cli : Agent) (v : AgentView) : Prop where
  reads : ∀ cur, v.current = some cur → Reads cli v.world cur.done
  bound : restarts v.trace ≤ 1
  spent : restarts v.trace ≠ 0 → ∃ kref, v.world.reference cli = some kref ∧
    v.world.applied cli = some (mark sha256 (v.world.deliverable kref))
  saw : ∀ cur node, v.current = some cur → Calm cur.done → Saw cli cur.done node →
    appliedHash node = v.world.applied cli
  recorded : ∀ cur content h, v.current = some cur →
    cur.done = ⟨recordCall sha256 cli content, .ok ()⟩ :: h →
    restarts v.trace = 0 ∧ v.world.applied cli = some (mark sha256 content)

section Once

variable {sha256 : Bytes → Bytes} {cli : Agent} {v : AgentView} {cur : Current Call Result World}

theorem SameSource.deliverable {w w' : World} {kref : KataRef} (hs : SameSource cli w w')
    (href : w.reference cli = some kref) : w'.deliverable kref = w.deliverable kref := by
  rw [World.deliverable, World.deliverable, hs.source kref href]

theorem restarts_called {w : World} {r : Call} {c : Reply} {t : List AgentObs}
    (hr : ∀ argv, r ≠ .command argv) : restarts (.called w r c :: t) = restarts t := by
  cases r with
  | command argv => exact absurd rfl (hr argv)
  | _ => simp [restarts, isRestart]

theorem Once.moved (hv : Once sha256 cli v) {w : World} (hG : (fixedGuard cli).move v w) :
    Once sha256 cli (v.moved w) := by
  obtain ⟨hsame, happlied⟩ := hG
  have hcount : restarts (v.moved w).trace = restarts v.trace := by
    simp [restarts, isRestart, View.moved]
  refine ⟨fun cur hcur => (hv.reads cur hcur).same hsame, hcount ▸ hv.bound, fun hspent => ?_,
    fun cur node hcur hcalm hsaw => (hv.saw cur node hcur hcalm hsaw).trans happlied.symm,
    fun cur content h hcur hdone => ?_⟩
  · rw [hcount] at hspent
    obtain ⟨kref, href, hmark⟩ := hv.spent hspent
    exact ⟨kref, hsame.reference.trans href, happlied.trans (hsame.deliverable href ▸ hmark)⟩
  · rw [hcount]
    exact ⟨(hv.recorded cur content h hcur hdone).1,
      happlied.trans (hv.recorded cur content h hcur hdone).2⟩

theorem Once.unspent (hv : Once sha256 cli v) (hcur : v.current = some cur) {node : Machine.Node}
    {kref : KataRef} {content : Option Bytes} (hdue : Due sha256 cli cur.done node kref content) :
    restarts v.trace = 0 := by
  by_contra hspent
  obtain ⟨kref', href', hmark⟩ := hv.spent hspent
  obtain ⟨href, rfl⟩ := (hv.reads cur hcur).sought hdue.sought
  obtain rfl : kref = kref' := Option.some.inj (href.symm.trans href')
  exact hdue.outdated ((hv.saw cur node hcur hdue.calm hdue.sought.saw).trans hmark)

theorem Once.quiet (hv : Once sha256 cli v) (hcur : v.current = some cur) {r : Call} {c : Reply}
    (hr : Permitted sha256 cli cur.done r) (hquiet : r.announces = false) :
    Once sha256 cli (v.called (agentSystem sha256 cli) cur r c) := by
  have heffect : Effect cli v.world r (v.world.exec cli r c).2 := exec_effect v.world r c
  have hsame := heffect.sameSource hr
  have hcount : restarts (.called v.world r c :: v.trace) = restarts v.trace := by
    refine restarts_called ?_
    rintro argv rfl
    cases hquiet
  have happlied : (v.world.exec cli r c).2.applied cli = v.world.applied cli := by
    rw [World.applied, World.applied, heffect.nodes hquiet]
  constructor
  · rintro cur' ⟨⟩
    exact (hv.reads cur hcur).called hr
  · exact hcount ▸ hv.bound
  · intro hspent
    obtain ⟨kref, href, hmark⟩ := hv.spent (hcount ▸ hspent)
    exact ⟨kref, hsame.reference.trans href, happlied.trans (hsame.deliverable href ▸ hmark)⟩
  · rintro cur' node ⟨⟩ hcalm hsaw
    refine Eq.trans ?_ happlied.symm
    rcases mem_called hsaw with ⟨rfl, hanswer⟩ | hbefore
    · have hok : (v.world.exec cli (.getNode cli.nodeName) c).1 = .ok node := hanswer
      simp [World.applied, exec_getNode_ok hok]
    · exact hv.saw cur node hcur (fun x hx => hcalm x (List.mem_cons_of_mem _ hx)) hbefore
  · rintro cur' content h ⟨⟩ hdone
    cases congrArg Sigma.fst (List.cons.inj hdone).1
    cases hquiet

theorem Once.patched (hv : Once sha256 cli v) (hcur : v.current = some cur) {p : Machine.NodePatch}
    {c : Reply} (hr : Permitted sha256 cli cur.done (.patchNode cli.nodeName p))
    (hunspent : restarts v.trace = 0)
    (hrecorded : ∀ content, p = recordPatch (mark sha256 content) →
      (v.world.exec cli (.patchNode cli.nodeName p) c).1 = .ok () →
      (v.world.exec cli (.patchNode cli.nodeName p) c).2.applied cli = some (mark sha256 content)) :
    Once sha256 cli (v.called (agentSystem sha256 cli) cur (.patchNode cli.nodeName p) c) := by
  have hcount : restarts (.called v.world (.patchNode cli.nodeName p) c :: v.trace) = 0 :=
    (restarts_called (by rintro _ ⟨⟩)).trans hunspent
  constructor
  · rintro cur' ⟨⟩
    exact (hv.reads cur hcur).called hr
  · exact hcount.trans_le (Nat.zero_le 1)
  · exact fun hspent => absurd hcount hspent
  · rintro cur' node ⟨⟩ hcalm _
    cases hcalm _ List.mem_cons_self
  · rintro cur' content h ⟨⟩ hdone
    obtain ⟨hhead, _⟩ := List.cons.inj hdone
    have hpatch : p = recordPatch (mark sha256 content) := by
      have hcall := congrArg Sigma.fst hhead
      simpa [recordCall] using hcall
    subst hpatch
    exact ⟨hcount, hrecorded content rfl (eq_of_heq (Sigma.mk.inj hhead).2)⟩

theorem Once.called (hv : Once sha256 cli v) (hcur : v.current = some cur) {r : Call} {c : Reply}
    (hr : Permitted sha256 cli cur.done r) :
    Once sha256 cli (v.called (agentSystem sha256 cli) cur r c) := by
  obtain ⟨snapshot, done⟩ := cur
  have hallowed := hr
  cases hr with
  | getNode => exact hv.quiet hcur hallowed rfl
  | look _ hlooks => exact hv.quiet hcur hallowed (Call.announces_of_looks hlooks)
  | touch _ hchanges =>
    refine hv.quiet hcur hallowed ?_
    cases r <;> first | rfl | cases hchanges
  | clear _ hunsought _ =>
    refine hv.patched hcur hallowed ?_ fun content heq => ?_
    · by_contra hspent
      obtain ⟨kref, href, _⟩ := hv.spent hspent
      rw [(hv.reads _ hcur).unsought hunsought] at href
      cases href
    · simp [clearPatch, recordPatch] at heq
  | @record _ node kref content hdue =>
    refine hv.patched hcur hallowed (hv.unspent hcur hdue) fun content' heq hok => ?_
    rw [heq] at hok ⊢
    exact exec_record_ok hok
  | @restart h node kref content hdue =>
    obtain ⟨hzero, happlied⟩ := hv.recorded _ content h hcur rfl
    have hsub : ∀ y ∈ h, y ∈ (⟨recordCall sha256 cli content, .ok ()⟩ : Sigma Result) :: h :=
      fun _ => List.mem_cons_of_mem _
    obtain ⟨href, hcontent⟩ := (hv.reads _ hcur).sought (hdue.sought.mono hsub)
    have heffect : Effect cli v.world (restartCall kref) (v.world.exec cli (restartCall kref) c).2 :=
      exec_effect v.world _ c
    have hsame := heffect.sameSource hallowed
    have hnodes : (v.world.exec cli (restartCall kref) c).2.nodes = v.world.nodes := by
      generalize (v.world.exec cli (restartCall kref) c).2 = w' at heffect
      cases heffect with
      | same | reload => rfl
      | files hfiles => cases hfiles
    have hone : restarts (.called v.world (restartCall kref) c :: v.trace) = 1 := by
      unfold restarts at hzero ⊢
      rw [List.countP_cons_of_pos rfl, hzero]
    constructor
    · rintro cur' ⟨⟩
      exact (hv.reads _ hcur).called hallowed
    · exact hone.le
    · intro _
      refine ⟨kref, hsame.reference.trans href, ?_⟩
      have happlied' : (v.world.exec cli (restartCall kref) c).2.applied cli = v.world.applied cli := by
        rw [World.applied, World.applied, hnodes]
      refine happlied'.trans (happlied.trans ?_)
      rw [hcontent, ← hsame.deliverable href]
      rfl
    · rintro cur' node' ⟨⟩ hcalm _
      cases hcalm _ List.mem_cons_self
    · rintro cur' content' h' ⟨⟩ hdone
      cases congrArg Sigma.fst (List.cons.inj hdone).1

theorem Once.ended (hv : Once sha256 cli v) {o : AgentObs} (ho : isRestart o = false) :
    Once sha256 cli ⟨v.world, o :: v.trace, none⟩ := by
  have hcount : restarts (o :: v.trace) = restarts v.trace := by simp [restarts, ho]
  refine ⟨by rintro _ ⟨⟩, hcount ▸ hv.bound, fun hspent => hv.spent (hcount ▸ hspent), ?_, ?_⟩
  · rintro _ _ ⟨⟩
  · rintro _ _ _ ⟨⟩

theorem Once.started (hv : Once sha256 cli v) : Once sha256 cli v.started := by
  have hended := hv.ended (o := .started v.world) rfl
  refine ⟨?_, hended.bound, hended.spent, ?_, ?_⟩
  · rintro cur ⟨⟩
    exact .nil
  · rintro cur node ⟨⟩ _ hsaw
    cases hsaw
  · rintro cur content h ⟨⟩ hdone
    cases hdone

end Once

theorem once_preserved (sha256 : Bytes → Bytes) (cli : Agent) :
    (agentContract sha256 cli).Preserves (agentSystem sha256 cli) (fixedGuard cli)
      (Once sha256 cli) where
  move := fun _ _ hv hG => hv.moved hG
  start := fun v hv _ _ => ⟨agentContract_binds sha256 cli v.world, hv.started⟩
  call := fun _ _ _ _ hv hcur hr _ => ⟨trivial, hv.called hcur hr⟩
  finish := fun _ _ _ hv _ _ => hv.ended rfl
  crash := fun _ hv _ => hv.ended rfl

/-- In every such run the service is restarted at most once. -/
theorem at_most_one_restart {sha256 : Bytes → Bytes} {cli : Agent} {w : World}
    {es : List (Event World Reply)}
    (hG : (fixedGuard cli).Allows (agentSystem sha256 cli) (.idle w) es) :
    restarts ((agentSystem sha256 cli).run (.idle w) es).trace ≤ 1 := by
  have hinit : Once sha256 cli ⟨w, [], none⟩ := by
    refine ⟨by rintro _ ⟨⟩, Nat.zero_le 1, fun hspent => absurd rfl hspent, ?_, ?_⟩
    · rintro _ _ ⟨⟩
    · rintro _ _ _ ⟨⟩
  exact ((once_preserved sha256 cli).run_idle hinit hG).bound

abbrev AgentConfig := Config Call Result World Reply (Except AgentError Unit)

theorem admits_setFile {cli : Agent} (c : AgentConfig) (path : Path) (content : Option Bytes) :
    (fixedGuard cli).Admits c (.move (c.world.setFile path content)) :=
  ⟨⟨rfl, fun _ _ => rfl⟩, rfl⟩

/-- A tick writes the file and fails to restart the service. -/
def sampleFailing : List (Event World Reply) := tickFor 14 ++ [.next (.exit (.code 1))]

def sampleFailed : AgentConfig := sampleAgent.run (.idle sampleHost) sampleFailing

/-- After that the file is edited, and two more ticks follow, the first of them killed. -/
def sampleEdited : List (Event World Reply) :=
  sampleFailing ++
    .move (sampleFailed.world.setFile (sampleHost.hostFile sampleCli) (some [1])) ::
    (tickFor 9 ++ [.crash] ++ tickFor 13)

theorem edited_file_restarts_once :
    restarts (sampleAgent.run (.idle sampleHost) sampleEdited).trace ≤ 1 ∧
      restarts (sampleAgent.run (.idle sampleHost) sampleEdited).trace = 1 := by
  have hG : (fixedGuard sampleCli).Allows sampleAgent (.idle sampleHost) sampleEdited := by
    refine Guard.allows_append.mpr ⟨?_, admits_setFile sampleFailed _ _, ?_⟩
    · exact Guard.allows_of_unmoved (fun _ => trivial) (fun _ _ _ => trivial) (fun _ => trivial) rfl
    · exact Guard.allows_of_unmoved (fun _ => trivial) (fun _ _ _ => trivial) (fun _ => trivial) rfl
  exact ⟨at_most_one_restart hG, by decide +kernel⟩

end FiveSpot.Kata
