import FiveSpot.Kata.RestartOnce

/-!
# What reaches the host

As long as nobody else touches the reference, its source or the host file, a tick that succeeds leaves
the source in the file as the agent passes it on, and every later tick leaves the file alone.
-/

namespace FiveSpot.Kata

set_option autoImplicit false

open Effects Utf8

def succeeded : AgentObs → Bool
  | .finished _ (.ok ()) => true
  | _ => false

def isFileWrite : AgentObs → Bool
  | .called _ r _ => r.changesFiles
  | _ => false

/-- Others keep the reference, its source and the files of the agent. -/
def stillGuard (cli : Agent) : AgentGuard where
  move v w' := SameSource cli v.world w' ∧ SameFiles cli v.world w'
  start _ := True
  call _ _ _ := True
  crash _ := True

section Ends

variable {sha256 : Bytes → Bytes} {cli : Agent} {h : Log}

theorem Synced.announced {content : Option Bytes} (hs : Synced sha256 cli h content) {r : Call}
    (hr : r.announces = true) (a : Result r) : Synced sha256 cli (⟨r, a⟩ :: h) content := by
  obtain ⟨dest, held, hplaced, hknown, hmark⟩ := hs
  refine ⟨dest, held, hplaced.mono fun _ => List.mem_cons_of_mem _, Eq.trans ?_ hknown, hmark⟩
  cases r <;> first | rfl | cases hr

theorem Returned.settled (hr : Returned sha256 cli (.ok ()) h) :
    (∃ node, Unsought cli h node ∧ Synced sha256 cli h none) ∨
      ∃ node kref content, Sought cli h node kref content ∧ Synced sha256 cli h content := by
  cases hr with
  | tornDown _ hunsought hsynced =>
    exact .inl ⟨_, hunsought.mono fun _ => List.mem_cons_of_mem _, hsynced.announced rfl _⟩
  | upToDate _ hsought hsynced _ => exact .inr ⟨_, _, _, hsought, hsynced⟩
  | restarted hdue _ =>
    refine .inr ⟨_, _, _, hdue.sought.mono fun y hy => ?_, (hdue.synced.announced rfl _).announced rfl _⟩
    exact List.mem_cons_of_mem _ (List.mem_cons_of_mem _ hy)

theorem Tracks.synced {w : World} {content : Option Bytes} (hv : Tracks cli w h)
    (hs : Synced sha256 cli h content) :
    mark sha256 (w.files (w.hostFile cli)) = mark sha256 content := by
  obtain ⟨dest, held, hplaced, hknown, hmark⟩ := hs
  obtain rfl := hv.placed hplaced
  rw [hv.files _ held (.inl rfl) hknown, hmark]

end Ends

/-- The reference and its source, and what the file holds once a tick has succeeded, as far as the hash
tells. -/
structure Delivered (sha256 : Bytes → Bytes) (cli : Agent) (kref : KataRef) (source : Option Bytes)
    (v : AgentView) : Prop where
  reference : v.world.reference cli = some kref
  source : v.world.sourceBytes kref = source
  reads : ∀ cur, v.current = some cur → Reads cli v.world cur.done
  tracks : ∀ cur, v.current = some cur → Tracks cli v.world cur.done
  held : v.trace.any succeeded = true →
    mark sha256 (v.world.files (v.world.hostFile cli)) = mark sha256 (v.world.deliverable kref)
  unwritten : v.trace.any succeeded = true → ∀ cur, v.current = some cur → Unwritten cur.done
  quiet : Throughout (fun o t => t.any succeeded = true → isFileWrite o = false) v.trace

section Delivered

variable {sha256 : Bytes → Bytes} {cli : Agent} {kref : KataRef} {source : Option Bytes} {v : AgentView}
  {cur : Current Call Result World}

theorem Delivered.moved (hv : Delivered sha256 cli kref source v) {w : World}
    (hG : (stillGuard cli).move v w) : Delivered sha256 cli kref source (v.moved w) := by
  obtain ⟨hsource, hfiles⟩ := hG
  have hkeep : (.moved v.world w :: v.trace).any succeeded = v.trace.any succeeded := rfl
  exact {
    reference := hsource.reference.trans hv.reference
    source := (hsource.source kref hv.reference).trans hv.source
    reads := fun cur hcur => (hv.reads cur hcur).same hsource
    tracks := fun cur hcur => (hv.tracks cur hcur).same hfiles
    held := fun hsome => by
      have hfile : w.files (w.hostFile cli) = v.world.files (v.world.hostFile cli) := by
        rw [hfiles.hostFile, hfiles.files _ (.inl rfl)]
      have hheld := hv.held (hkeep ▸ hsome)
      rwa [← hfile, ← hsource.deliverable hv.reference] at hheld
    unwritten := fun hsome => hv.unwritten (hkeep ▸ hsome)
    quiet := .cons (fun _ => rfl) hv.quiet }

theorem Delivered.keepsFiles (hv : Delivered sha256 cli kref source v) (hcur : v.current = some cur)
    {r : Call} (hr : Permitted sha256 cli cur.done r) (hsome : v.trace.any succeeded = true) :
    r.changesFiles = false := by
  by_contra hchanges
  rw [Bool.not_eq_false] at hchanges
  obtain ⟨_, _, _, ⟨dest, held, content, hplaced, hwanted, hknown, hne⟩ | ⟨x, hx, hwrote⟩⟩ :=
    hr.touches hchanges
  · have htracks := hv.tracks cur hcur
    obtain rfl := htracks.placed hplaced
    have hheld := hv.held hsome
    rw [htracks.files _ held (.inl rfl) hknown] at hheld
    cases hwanted with
    | nothing hunsought =>
      have hnone := (hv.reads cur hcur).unsought hunsought
      rw [hv.reference] at hnone
      cases hnone
    | content hsought =>
      obtain ⟨href, rfl⟩ := (hv.reads cur hcur).sought hsought
      obtain rfl := Option.some.inj (hv.reference.symm.trans href)
      exact hne hheld
  · simp [hv.unwritten hsome cur hcur x hx] at hwrote

theorem Delivered.called (hv : Delivered sha256 cli kref source v) (hcur : v.current = some cur) {r : Call}
    {c : Reply} (hr : Permitted sha256 cli cur.done r) :
    Delivered sha256 cli kref source (v.called (agentSystem sha256 cli) cur r c) := by
  have heffect : Effect cli v.world r (v.world.exec cli r c).2 := exec_effect v.world r c
  have hsame := heffect.sameSource hr
  have hkeep : (.called v.world r c :: v.trace).any succeeded = v.trace.any succeeded := rfl
  exact {
    reference := hsame.reference.trans hv.reference
    source := (heffect.sourceBytes kref).trans hv.source
    reads := by
      rintro cur' ⟨⟩
      exact (hv.reads cur hcur).called hr
    tracks := by
      rintro cur' ⟨⟩
      exact (hv.tracks cur hcur).called hr
    held := fun hsome => by
      have hfiles := heffect.unchanged (hv.keepsFiles hcur hr (hkeep ▸ hsome))
      have hfile : (v.world.exec cli r c).2.files ((v.world.exec cli r c).2.hostFile cli) =
          v.world.files (v.world.hostFile cli) := by
        rw [heffect.hostFile, hfiles]
      have hheld := hv.held (hkeep ▸ hsome)
      rwa [← hfile, ← hsame.deliverable hv.reference] at hheld
    unwritten := by
      rintro hsome cur' ⟨⟩
      exact (hv.unwritten (hkeep ▸ hsome) cur hcur).cons (hv.keepsFiles hcur hr (hkeep ▸ hsome)) _
    quiet := .cons (fun hsome => hv.keepsFiles hcur hr hsome) hv.quiet }

theorem Delivered.started (hv : Delivered sha256 cli kref source v) : Delivered sha256 cli kref source v.started where
  reference := hv.reference
  source := hv.source
  reads := by
    rintro cur ⟨⟩
    exact .nil
  tracks := by
    rintro cur ⟨⟩
    exact .nil
  held := hv.held
  unwritten := by
    rintro _ cur ⟨⟩ x hx
    cases hx
  quiet := .cons (fun _ => rfl) hv.quiet

theorem Delivered.ended (hv : Delivered sha256 cli kref source v) {o : AgentObs}
    (ho : isFileWrite o = false)
    (hheld : succeeded o = true →
      mark sha256 (v.world.files (v.world.hostFile cli)) = mark sha256 (v.world.deliverable kref)) :
    Delivered sha256 cli kref source ⟨v.world, o :: v.trace, none⟩ where
  reference := hv.reference
  source := hv.source
  reads := by rintro cur ⟨⟩
  tracks := by rintro cur ⟨⟩
  held := fun hsome => ((Bool.or_eq_true _ _).mp hsome).elim hheld hv.held
  unwritten := by rintro _ cur ⟨⟩
  quiet := .cons (fun _ => ho) hv.quiet

theorem Delivered.finished (hv : Delivered sha256 cli kref source v)
    (hcur : v.current = some cur) {result : Except AgentError Unit}
    (hr : Returned sha256 cli result cur.done) :
    Delivered sha256 cli kref source (v.finished cur result) := by
  refine hv.ended rfl fun hok => ?_
  rcases result with _ | ⟨⟩
  · cases hok
  rcases hr.settled with ⟨node, hunsought, _⟩ | ⟨node, kref', content, hsought, hsynced⟩
  · have hnone := (hv.reads cur hcur).unsought hunsought
    rw [hv.reference] at hnone
    cases hnone
  · obtain ⟨href, rfl⟩ := (hv.reads cur hcur).sought hsought
    obtain rfl := Option.some.inj (hv.reference.symm.trans href)
    exact (hv.tracks cur hcur).synced hsynced

end Delivered

theorem delivered_preserved (sha256 : Bytes → Bytes) (cli : Agent) (kref : KataRef) (source : Option Bytes) :
    (agentContract sha256 cli).Preserves (agentSystem sha256 cli) (stillGuard cli)
      (Delivered sha256 cli kref source) where
  move := fun _ _ hv hG => hv.moved hG
  start := fun v hv _ _ => ⟨agentContract_binds sha256 cli v.world, hv.started⟩
  call := fun _ _ _ _ hv hcur hr _ => ⟨trivial, hv.called hcur hr⟩
  finish := fun _ _ _ hv hcur hr => hv.finished hcur hr
  crash := fun _ hv _ => hv.ended rfl (by rintro ⟨⟩)

/--
In every such run, at any time after a tick has succeeded, the host file holds the bytes of the source
exactly when these are the bytes of a text, and no file was written since.
-/
theorem delivery_exact_iff {sha256 : Bytes → Bytes} {cli : Agent} {kref : KataRef} {w : World}
    (href : w.reference cli = some kref) {es : List (Event World Reply)}
    (hG : (stillGuard cli).Allows (agentSystem sha256 cli) (.idle w) es)
    (hsha : TellsApart sha256
      (((agentSystem sha256 cli).run (.idle w) es).world.files
        (((agentSystem sha256 cli).run (.idle w) es).world.hostFile cli))
      (w.deliverable kref))
    {since before : List AgentObs} {cur : Current Call Result World}
    (htrace : ((agentSystem sha256 cli).run (.idle w) es).trace =
      since ++ .finished cur (.ok ()) :: before) :
    (((agentSystem sha256 cli).run (.idle w) es).world.files
        (((agentSystem sha256 cli).run (.idle w) es).world.hostFile cli) = w.sourceBytes kref ↔
      ∀ bytes, w.sourceBytes kref = some bytes → IsUtf8 bytes) ∧
    ∀ o ∈ since, isFileWrite o = false := by
  have hinit : Delivered sha256 cli kref (w.sourceBytes kref) ⟨w, [], none⟩ :=
    ⟨href, rfl, by rintro _ ⟨⟩, by rintro _ ⟨⟩, by rintro ⟨⟩, by rintro ⟨⟩, .nil⟩
  have hv := (delivered_preserved sha256 cli kref (w.sourceBytes kref)).run_idle hinit hG
  have hview : ((agentSystem sha256 cli).run (.idle w) es).view.trace =
      since ++ .finished cur (.ok ()) :: before := htrace
  have hsome : ∀ u : List AgentObs,
      (u ++ .finished cur (.ok ()) :: before).any succeeded = true := fun u => by
    simp [succeeded]
  constructor
  · have hheld := hv.held (by rw [hview]; exact hsome since)
    rw [World.deliverable, hv.source] at hheld
    have hfile := hsha.eq_of_mark_eq hheld
    rw [World.deliverable] at hfile
    refine Iff.trans (Eq.congr_left hfile) ?_
    cases w.sourceBytes kref with
    | none => simp
    | some bytes => simp [asBytes_fromUtf8Lossy_iff]
  · intro o ho
    have hquiet := hv.quiet
    rw [hview] at hquiet
    obtain ⟨u, hu⟩ := hquiet.of_append o ho
    exact hu (hsome u)

theorem exists_success {t : List AgentObs} (h : t.any succeeded = true) :
    ∃ since cur before, t = since ++ .finished cur (.ok ()) :: before := by
  obtain ⟨o, ho, hok⟩ := List.any_eq_true.mp h
  obtain ⟨since, before, rfl⟩ := List.append_of_mem ho
  cases o with
  | finished cur result =>
    rcases result with _ | ⟨⟩
    · cases hok
    · exact ⟨since, cur, before, rfl⟩
  | _ => cases hok

def sampleDelivery : List (Event World Reply) := tickFor 15 ++ tickFor 7

theorem text_is_delivered :
    (sampleAgent.run (.idle sampleHost) sampleDelivery).world.files
        ((sampleAgent.run (.idle sampleHost) sampleDelivery).world.hostFile sampleCli) =
      some (asBytes "v") ∧
    ∃ since before, (sampleAgent.run (.idle sampleHost) sampleDelivery).trace = since ++ before ∧
      ∀ o ∈ since, isFileWrite o = false := by
  have hG : (stillGuard sampleCli).Allows sampleAgent (.idle sampleHost) sampleDelivery :=
    Guard.allows_of_unmoved (fun _ => trivial) (fun _ _ _ => trivial) (fun _ => trivial) rfl
  have href : sampleHost.reference sampleCli = some sampleRef := by decide +kernel
  have hsource : sampleHost.sourceBytes sampleRef = some (asBytes "v") := by decide +kernel
  have hsome : (sampleAgent.run (.idle sampleHost) sampleDelivery).trace.any succeeded = true := by
    decide +kernel
  obtain ⟨since, cur, before, htrace⟩ := exists_success hsome
  have hsha : TellsApart Sha256.sha256
      (((agentSystem Sha256.sha256 sampleCli).run (.idle sampleHost) sampleDelivery).world.files
        (((agentSystem Sha256.sha256 sampleCli).run (.idle sampleHost) sampleDelivery).world.hostFile
          sampleCli)) (sampleHost.deliverable sampleRef) := by
    refine tellsApart_of_eq ?_
    decide +kernel
  obtain ⟨hiff, hquiet⟩ := delivery_exact_iff href hG hsha htrace
  have htext : ∀ bytes, sampleHost.sourceBytes sampleRef = some bytes → IsUtf8 bytes := by
    intro bytes hbytes
    rw [hsource] at hbytes
    exact ⟨"v", Option.some.inj hbytes⟩
  have hexact := hiff.mpr htext
  rw [hsource] at hexact
  unfold sampleAgent
  exact ⟨hexact, since, _, htrace, hquiet⟩

/-- A reference to a Secret that holds one byte, which is not a text. -/
def sampleSecret : World :=
  { sampleHost with
    nodes := fun _ => some (sampleNode
      "\x7b\"key\":\"k\",\"kind\":\"Secret\",\"name\":\"a\",\"namespace\":\"n\",\"restartService\":\"k.service\"\x7d")
    secrets := fun _ _ => some ⟨some [("k", [0xFF])]⟩ }

/-- The tick succeeds, and the host file holds three other bytes. -/
theorem secret_is_garbled :
    sampleSecret.reference sampleCli = some { sampleRef with kind := kindSecret } ∧
    sampleSecret.sourceBytes { sampleRef with kind := kindSecret } = some [0xFF] ∧
    (sampleAgent.run (.idle sampleSecret) (tickFor 15)).trace.any succeeded = true ∧
    (sampleAgent.run (.idle sampleSecret) (tickFor 15)).world.files
        (sampleSecret.hostFile sampleCli) = some [0xEF, 0xBF, 0xBD] := by
  decide +kernel

end FiveSpot.Kata
