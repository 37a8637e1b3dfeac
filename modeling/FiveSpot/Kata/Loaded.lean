import FiveSpot.Kata.Delivery

/-!
# What the service has loaded

The agent takes the recorded hash for the content the service was last restarted with. The record is
made before the restart and a tear-down restarts nothing, so this holds only where neither gets lost.
-/

namespace FiveSpot.Kata

set_option autoImplicit false

open Effects Utf8

def Reply.restarts : Reply → Bool
  | .io _ _ => false
  | .exit status => status.success
  | _ => true

/-- The hash was just recorded and the service not yet restarted. -/
def Recorded (sha256 : Bytes → Bytes) (cli : Agent) (h : Log) : Prop :=
  ∃ content before, h = ⟨recordCall sha256 cli content, .ok ()⟩ :: before

/--
A Node without a reference is only read while nothing is loaded, a record that fails has no effect, and
every restart succeeds.
-/
def Dependable (w : World) : Call → Reply → Prop
  | .getNode name, _ => ∀ node, w.nodes name = some node → refText node = none → w.loaded = none
  | .patchNode _ p, c => ∀ hash e, p = recordPatch hash → c ≠ .kube e true
  | .command _, c => c.restarts = true
  | _, _ => True

/--
Others leave the host file and the loaded content alone and at most clear the annotation of the agent,
its calls are dependable, and it is not killed between the record and the restart.
-/
def dependableGuard (sha256 : Bytes → Bytes) (cli : Agent) : AgentGuard where
  move v w' := SameFiles cli v.world w' ∧ w'.loaded = v.world.loaded ∧
    (w'.applied cli = v.world.applied cli ∨ w'.applied cli = none)
  start _ := True
  call v r c := Dependable v.world r c
  crash v := ∀ cur, v.current = some cur → ¬ Recorded sha256 cli cur.done

def Unissued (h : Log) : Prop := ∀ x ∈ h, ∀ argv, x.1 ≠ .command argv

/-- The recorded hash and what was read of it tell the loaded content. -/
structure Loaded (sha256 : Bytes → Bytes) (cli : Agent) (v : AgentView) : Prop where
  tracks : ∀ cur, v.current = some cur → Tracks cli v.world cur.done
  agrees : (∀ cur, v.current = some cur → ¬ Recorded sha256 cli cur.done) →
    ∀ a, v.world.applied cli = some a → a = mark sha256 v.world.loaded
  recorded : ∀ cur content h, v.current = some cur →
    cur.done = ⟨recordCall sha256 cli content, .ok ()⟩ :: h →
    ∀ a, v.world.applied cli = some a → a = mark sha256 content
  saw : ∀ cur node, v.current = some cur → Unissued cur.done → Saw cli cur.done node →
    (∀ a, appliedHash node = some a → a = mark sha256 v.world.loaded) ∧
      (refText node = none → v.world.loaded = none)
  issued : ∀ cur argv answer h, v.current = some cur → cur.done = ⟨.command argv, answer⟩ :: h →
    v.world.loaded = v.world.files (v.world.hostFile cli)
  settled : v.trace.head?.any succeeded = true →
    mark sha256 v.world.loaded = mark sha256 (v.world.files (v.world.hostFile cli))

section Loaded

variable {sha256 : Bytes → Bytes} {cli : Agent} {v : AgentView} {cur : Current Call Result World}
  {h : Log}

theorem Calm.not_recorded (hcalm : Calm h) : ¬ Recorded sha256 cli h := by
  rintro ⟨content, before, rfl⟩
  cases hcalm _ List.mem_cons_self

theorem Calm.unissued (hcalm : Calm h) : Unissued h := by
  rintro ⟨r, a⟩ hx argv rfl
  cases hcalm _ hx

theorem Returned.not_recorded {result : Except AgentError Unit}
    (hr : Returned sha256 cli result h) : ¬ Recorded sha256 cli h := by
  cases hr with
  | failed hcalm | upToDate hcalm => exact hcalm.not_recorded
  | tornDown | notTornDown =>
    rintro ⟨content, before, heq⟩
    cases congrArg Sigma.fst (List.cons.inj heq).1
  | notRecorded =>
    rintro ⟨content, before, heq⟩
    cases eq_of_heq (Sigma.mk.inj (List.cons.inj heq).1).2
  | restarted | notRestarted =>
    rintro ⟨content, before, heq⟩
    cases congrArg Sigma.fst (List.cons.inj heq).1

theorem Loaded.moved (hv : Loaded sha256 cli v) {w : World}
    (hG : (dependableGuard sha256 cli).move v w) : Loaded sha256 cli (v.moved w) := by
  obtain ⟨hfiles, hloaded, happlied⟩ := hG
  have hback : ∀ a, w.applied cli = some a → v.world.applied cli = some a := fun a ha =>
    happlied.elim (fun heq => heq ▸ ha) fun hnone => by simp [hnone] at ha
  have hfile : w.files (w.hostFile cli) = v.world.files (v.world.hostFile cli) := by
    rw [hfiles.hostFile, hfiles.files _ (.inl rfl)]
  exact {
    tracks := fun cur hcur => (hv.tracks cur hcur).same hfiles
    agrees := fun hcur a ha => (hv.agrees hcur a (hback a ha)).trans (congrArg _ hloaded.symm)
    recorded := fun cur content h hcur hdone a ha =>
      hv.recorded cur content h hcur hdone a (hback a ha)
    saw := fun cur node hcur hun hsaw => by
      obtain ⟨hmark, hnone⟩ := hv.saw cur node hcur hun hsaw
      exact ⟨fun a ha => (hmark a ha).trans (congrArg _ hloaded.symm),
        fun href => hloaded.trans (hnone href)⟩
    issued := fun cur argv answer h hcur hdone =>
      hloaded.trans ((hv.issued cur argv answer h hcur hdone).trans hfile.symm)
    settled := by rintro ⟨⟩ }

theorem Loaded.started (hv : Loaded sha256 cli v) (hidle : v.current = none) :
    Loaded sha256 cli v.started where
  tracks := by
    rintro cur ⟨⟩
    exact .nil
  agrees := fun _ a ha => hv.agrees (by simp [hidle]) a ha
  recorded := by
    rintro cur content h ⟨⟩ hdone
    cases hdone
  saw := by
    rintro cur node ⟨⟩ _ hsaw
    cases hsaw
  issued := by
    rintro cur argv answer h ⟨⟩ hdone
    cases hdone
  settled := by rintro ⟨⟩

theorem Loaded.ended (hv : Loaded sha256 cli v)
    (hnot : ∀ cur, v.current = some cur → ¬ Recorded sha256 cli cur.done) {o : AgentObs}
    (hsettled : succeeded o = true →
      mark sha256 v.world.loaded = mark sha256 (v.world.files (v.world.hostFile cli))) :
    Loaded sha256 cli ⟨v.world, o :: v.trace, none⟩ where
  tracks := by rintro cur ⟨⟩
  agrees := fun _ => hv.agrees hnot
  recorded := by rintro cur content h ⟨⟩
  saw := by rintro cur node ⟨⟩
  issued := by rintro cur argv answer h ⟨⟩
  settled := hsettled

theorem Loaded.finished (hv : Loaded sha256 cli v) (hcur : v.current = some cur) {result : Except AgentError Unit}
    (hr : Returned sha256 cli result cur.done) : Loaded sha256 cli (v.finished cur result) := by
  refine hv.ended (fun cur' hcur' => ?_) fun hok => ?_
  · obtain rfl := Option.some.inj (hcur.symm.trans hcur')
    exact hr.not_recorded
  obtain ⟨snapshot, done⟩ := cur
  rcases result with _ | ⟨⟩
  · cases hok
  have htracks := hv.tracks _ hcur
  cases hr with
  | @tornDown h node hcalm hunsought hsynced =>
    have hun : Unissued (⟨.patchNode cli.nodeName clearPatch, .ok ()⟩ :: h) :=
      List.forall_mem_cons.mpr ⟨by rintro _ ⟨⟩, hcalm.unissued⟩
    obtain ⟨_, hnone⟩ := hv.saw _ node hcur hun (List.mem_cons_of_mem _ hunsought.saw)
    rw [hnone hunsought.ref, htracks.synced (hsynced.announced rfl _)]
  | @upToDate _ node _ _ hcalm hsought hsynced happlied =>
    obtain ⟨hmark, _⟩ := hv.saw _ node hcur hcalm.unissued hsought.saw
    rw [← hmark _ happlied, htracks.synced hsynced]
  | restarted => rw [hv.issued _ _ _ _ hcur rfl]

theorem Permitted.calm {r : Call} (hr : Permitted sha256 cli h r) (hquiet : r.announces = false) :
    Calm h := by
  cases hr with
  | getNode => exact fun x hx => by cases hx
  | look hcalm | touch hcalm => exact hcalm
  | clear | record | restart => cases hquiet

theorem Loaded.quiet (hv : Loaded sha256 cli v) (hcur : v.current = some cur) {r : Call} {c : Reply}
    (hr : Permitted sha256 cli cur.done r) (hquiet : r.announces = false)
    (hG : Dependable v.world r c) :
    Loaded sha256 cli (v.called (agentSystem sha256 cli) cur r c) := by
  have heffect : Effect cli v.world r (v.world.exec cli r c).2 := exec_effect v.world r c
  have hloaded : (v.world.exec cli r c).2.loaded = v.world.loaded := by
    refine heffect.loaded ?_
    rintro argv rfl
    cases hquiet
  have happlied : (v.world.exec cli r c).2.applied cli = v.world.applied cli := by
    rw [World.applied, World.applied, heffect.nodes hquiet]
  have hcalm := hr.calm hquiet
  have hagrees : ∀ a, v.world.applied cli = some a → a = mark sha256 v.world.loaded :=
    hv.agrees fun cur' hcur' => by
      obtain rfl := Option.some.inj (hcur.symm.trans hcur')
      exact hcalm.not_recorded
  exact {
    tracks := by
      rintro cur' ⟨⟩
      exact (hv.tracks cur hcur).called hr
    agrees := fun _ a ha => (hagrees a (happlied ▸ ha)).trans (congrArg _ hloaded.symm)
    recorded := by
      rintro cur' content h ⟨⟩ hdone
      cases congrArg Sigma.fst (List.cons.inj hdone).1
      cases hquiet
    saw := by
      rintro cur' node ⟨⟩ _ hsaw
      refine hloaded ▸ ?_
      rcases mem_called hsaw with ⟨rfl, hanswer⟩ | hbefore
      · have hok : (v.world.exec cli (.getNode cli.nodeName) c).1 = .ok node := hanswer
        have hnode := exec_getNode_ok hok
        exact ⟨fun a ha => hagrees a (by simpa [World.applied, hnode] using ha), hG node hnode⟩
      · exact hv.saw cur node hcur hcalm.unissued hbefore
    issued := by
      rintro cur' argv answer h ⟨⟩ hdone
      cases congrArg Sigma.fst (List.cons.inj hdone).1
      cases hquiet
    settled := by rintro ⟨⟩ }

theorem exec_patchNode_refused {w : World} {name : String} {p : Machine.NodePatch} {c : Reply}
    (hc : ∀ e, c ≠ .kube e true) (hanswer : (w.exec cli (.patchNode name p) c).1 ≠ .ok ()) :
    (w.exec cli (.patchNode name p) c).2 = w := by
  simp only [World.exec] at hanswer ⊢
  cases hafter : w.patchNode name p with
  | error e => rcases c with _ | ⟨e, _ | _⟩ | ⟨_, _⟩ | _ <;> rfl
  | ok w' =>
    rw [hafter] at hanswer
    rcases c with _ | ⟨e, _ | _⟩ | ⟨_, _⟩ | _
    case kube.false => rfl
    case kube.true => exact absurd rfl (hc e)
    all_goals exact absurd rfl hanswer

theorem Loaded.patched (hv : Loaded sha256 cli v) (hcur : v.current = some cur)
    {p : Machine.NodePatch} {c : Reply}
    (hr : Permitted sha256 cli cur.done (.patchNode cli.nodeName p)) (hcalm : Calm cur.done)
    (hback : ¬ Recorded sha256 cli
        (⟨.patchNode cli.nodeName p, (v.world.exec cli (.patchNode cli.nodeName p) c).1⟩ :: cur.done) →
      ∀ a, (v.world.exec cli (.patchNode cli.nodeName p) c).2.applied cli = some a →
        v.world.applied cli = some a) :
    Loaded sha256 cli (v.called (agentSystem sha256 cli) cur (.patchNode cli.nodeName p) c) := by
  have heffect : Effect cli v.world (.patchNode cli.nodeName p)
    (v.world.exec cli (.patchNode cli.nodeName p) c).2 := exec_effect v.world _ c
  have hloaded := heffect.loaded (by rintro _ ⟨⟩)
  exact {
    tracks := by
      rintro cur' ⟨⟩
      exact (hv.tracks cur hcur).called hr
    agrees := fun hnot a ha => by
      refine (hv.agrees (fun cur' hcur' => ?_) a (hback (hnot _ rfl) a ha)).trans
        (congrArg _ hloaded.symm)
      obtain rfl := Option.some.inj (hcur.symm.trans hcur')
      exact hcalm.not_recorded
    recorded := by
      rintro cur' content h ⟨⟩ hdone a ha
      obtain ⟨hhead, _⟩ := List.cons.inj hdone
      have hpatch : p = recordPatch (mark sha256 content) := by
        have hcall := congrArg Sigma.fst hhead
        simpa [recordCall] using hcall
      subst hpatch
      have hok := exec_record_ok (eq_of_heq (Sigma.mk.inj hhead).2)
      exact Option.some.inj (ha.symm.trans hok)
    saw := by
      rintro cur' node ⟨⟩ hun hsaw
      refine hloaded ▸ ?_
      rcases mem_called hsaw with ⟨heq, _⟩ | hbefore
      · cases heq
      · exact hv.saw cur node hcur hcalm.unissued hbefore
    issued := by
      rintro cur' argv answer h ⟨⟩ hdone
      cases congrArg Sigma.fst (List.cons.inj hdone).1
    settled := by rintro ⟨⟩ }

theorem Loaded.restarted (hv : Loaded sha256 cli v) {snapshot : World} {content : Option Bytes}
    {node : Machine.Node} {kref : KataRef} {c : Reply}
    (hcur : v.current = some ⟨snapshot, ⟨recordCall sha256 cli content, .ok ()⟩ :: h⟩)
    (hdue : Due sha256 cli h node kref content) (hG : c.restarts = true) :
    Loaded sha256 cli (v.called (agentSystem sha256 cli)
      ⟨snapshot, ⟨recordCall sha256 cli content, .ok ()⟩ :: h⟩ (restartCall kref) c) := by
  have hafter : (v.world.exec cli (restartCall kref) c).2 = v.world.reload cli := by
    cases c with
    | io => cases hG
    | exit status => exact if_pos hG
    | ok | kube _ _ => rfl
  have hfile : mark sha256 (v.world.reload cli).loaded = mark sha256 content :=
    (hv.tracks _ hcur).synced (hdue.synced.announced rfl _)
  exact {
    tracks := by
      rintro cur' ⟨⟩
      exact (hv.tracks _ hcur).called (.restart hdue)
    agrees := fun _ a ha => by
      have hworld : (v.called (agentSystem sha256 cli)
        ⟨snapshot, ⟨recordCall sha256 cli content, .ok ()⟩ :: h⟩ (restartCall kref) c).world =
          v.world.reload cli := hafter
      rw [hworld] at ha ⊢
      exact (hv.recorded _ content h hcur rfl a ha).trans hfile.symm
    recorded := by
      rintro cur' content' h' ⟨⟩ hdone
      cases congrArg Sigma.fst (List.cons.inj hdone).1
    saw := by
      rintro cur' node' ⟨⟩ hun _
      cases hun _ List.mem_cons_self _ rfl
    issued := by
      rintro cur' argv answer h' ⟨⟩ _
      have hworld : (v.called (agentSystem sha256 cli)
        ⟨snapshot, ⟨recordCall sha256 cli content, .ok ()⟩ :: h⟩ (restartCall kref) c).world =
          v.world.reload cli := hafter
      rw [hworld]
      rfl
    settled := by rintro ⟨⟩ }

theorem Loaded.called (hv : Loaded sha256 cli v) (hcur : v.current = some cur) {r : Call} {c : Reply}
    (hr : Permitted sha256 cli cur.done r) (hG : Dependable v.world r c) :
    Loaded sha256 cli (v.called (agentSystem sha256 cli) cur r c) := by
  obtain ⟨snapshot, done⟩ := cur
  have hallowed := hr
  cases hr with
  | getNode => exact hv.quiet hcur hallowed rfl hG
  | look _ hlooks => exact hv.quiet hcur hallowed (Call.announces_of_looks hlooks) hG
  | touch _ hchanges =>
    refine hv.quiet hcur hallowed ?_ hG
    cases r <;> first | rfl | cases hchanges
  | clear hcalm =>
    refine hv.patched hcur hallowed hcalm fun _ a ha => ?_
    rcases Effect.clear (exec_effect v.world _ c) with hsame | hnone
    · exact hsame ▸ ha
    · simp [hnone] at ha
  | @record _ _ _ content hdue =>
    refine hv.patched hcur hallowed hdue.calm fun hnot a ha => ?_
    have hrefused := exec_patchNode_refused (hG _ · rfl) fun hok => hnot ⟨content, done, by rw [hok]; rfl⟩
    rwa [hrefused] at ha
  | @restart h node kref content hdue => exact hv.restarted hcur hdue hG

end Loaded

theorem loaded_preserved (sha256 : Bytes → Bytes) (cli : Agent) :
    (agentContract sha256 cli).Preserves (agentSystem sha256 cli) (dependableGuard sha256 cli)
      (Loaded sha256 cli) where
  move := fun _ _ hv hG => hv.moved hG
  start := fun v hv hidle _ => ⟨agentContract_binds sha256 cli v.world, hv.started hidle⟩
  call := fun _ _ _ _ hv hcur hr hG => ⟨trivial, hv.called hcur hr hG⟩
  finish := fun _ _ _ hv hcur hr => hv.finished hcur hr
  crash := fun _ hv hG => hv.ended hG (by rintro ⟨⟩)

/-- In every such run a tick that succeeds leaves the service with the content of the host file. -/
theorem loaded_is_host_file {sha256 : Bytes → Bytes} {cli : Agent} {w : World}
    (hagrees : ∀ a, w.applied cli = some a → a = mark sha256 w.loaded) {es : List (Event World Reply)}
    (hG : (dependableGuard sha256 cli).Allows (agentSystem sha256 cli) (.idle w) es)
    (hsha : TellsApart sha256 ((agentSystem sha256 cli).run (.idle w) es).world.loaded
      (((agentSystem sha256 cli).run (.idle w) es).world.files
        (((agentSystem sha256 cli).run (.idle w) es).world.hostFile cli)))
    (hok : ((agentSystem sha256 cli).run (.idle w) es).trace.head?.any succeeded = true) :
    ((agentSystem sha256 cli).run (.idle w) es).world.loaded =
      ((agentSystem sha256 cli).run (.idle w) es).world.files
        (((agentSystem sha256 cli).run (.idle w) es).world.hostFile cli) := by
  have hinit : Loaded sha256 cli ⟨w, [], none⟩ := by
    refine ⟨?_, fun _ => hagrees, ?_, ?_, ?_, ?_⟩
    · rintro cur ⟨⟩
    · rintro cur content h ⟨⟩
    · rintro cur node ⟨⟩
    · rintro cur argv answer h ⟨⟩
    · rintro ⟨⟩
  exact hsha.eq_of_mark_eq (((loaded_preserved sha256 cli).run_idle hinit hG).settled hok)

def referenced (w : World) : Call → Bool
  | .getNode name => (w.nodes name).all fun node => (refText node).isSome
  | _ => true

def dependableTests (sha256 : Bytes → Bytes) (cli : Agent) : Tests (dependableGuard sha256 cli) where
  start _ := true
  call v r c := c == .ok && referenced v.world r
  start_sound _ _ := trivial
  call_sound v r c h := by
    obtain ⟨hc, hr⟩ := (Bool.and_eq_true _ _).mp h
    obtain rfl := eq_of_beq hc
    cases r with
    | getNode name =>
      intro node hnode href
      simp [referenced, hnode, href] at hr
    | patchNode name p => exact fun _ _ _ => by rintro ⟨⟩
    | command argv => rfl
    | _ => trivial
  crash _ := false
  crash_sound _ h := by cases h

theorem delivered_content_is_loaded :
    (sampleAgent.run (.idle sampleHost) (tickFor 15)).world.loaded =
        (sampleAgent.run (.idle sampleHost) (tickFor 15)).world.files
          ((sampleAgent.run (.idle sampleHost) (tickFor 15)).world.hostFile sampleCli) ∧
      (sampleAgent.run (.idle sampleHost) (tickFor 15)).world.loaded.isSome = true := by
  have hG : (dependableGuard Sha256.sha256 sampleCli).Allows sampleAgent (.idle sampleHost)
      (tickFor 15) := Tests.allows (T := dependableTests _ sampleCli) (by decide +kernel)
  have happlied : ∀ a, sampleHost.applied sampleCli = some a →
      a = mark Sha256.sha256 sampleHost.loaded := by
    intro a ha
    have hnone : sampleHost.applied sampleCli = none := by decide +kernel
    rw [hnone] at ha
    cases ha
  have hloaded := loaded_is_host_file happlied hG (tellsApart_of_eq (by decide +kernel)) (by decide +kernel)
  refine ⟨?_, by decide +kernel⟩
  unfold sampleAgent
  exact hloaded

def sampleWithdrawn : World :=
  { (sampleAgent.run (.idle sampleHost) (tickFor 15)).world with
    nodes := fun _ => some { sampleNode sampleRefText with annotations := [] } }

def summary (c : AgentConfig) : Bool × Option Bytes × Option Bytes :=
  (c.trace.head?.any succeeded, c.world.loaded, c.world.files (c.world.hostFile sampleCli))

/--
After a restart that failed the next tick succeeds with nothing loaded and the drop-in in place; after a
tear-down the drop-in is gone and still loaded.
-/
theorem loaded_content_differs :
    summary (sampleAgent.run (.idle sampleHost) (sampleFailing ++ tickFor 7)) =
        (true, none, some (asBytes "v")) ∧
      summary (sampleAgent.run (.idle sampleHost)
        (tickFor 15 ++ .move sampleWithdrawn :: tickFor 8)) = (true, some (asBytes "v"), none) := by
  decide +kernel

end FiveSpot.Kata
