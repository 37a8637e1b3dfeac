import FiveSpot.Kata.Conduct

/-!
# The tick keeps to its conduct

Each function of the agent is followed through its calls once; what a whole tick does is put together
from that.
-/

namespace FiveSpot.Kata

set_option autoImplicit false

open Effects Effects.Prog Utf8

section Hash

variable {sha256 : Bytes → Bytes}

theorem digitChar_ne_s : ∀ n < 16, Nat.digitChar n ≠ 's' := by decide

theorem sha256Hex_ne_absent (bytes : Bytes) : sha256Hex sha256 bytes ≠ absentHashMarker := by
  intro h
  have hs : 's' ∈ (sha256Hex sha256 bytes).toList := by
    rw [h]
    decide
  simp only [sha256Hex, String.toList_ofList, List.mem_flatMap, hexByte, List.mem_cons,
    List.not_mem_nil, or_false] at hs
  obtain ⟨b, _, hhigh | hlow⟩ := hs
  · exact digitChar_ne_s _ (by have := b.toNat_lt; omega) hhigh.symm
  · exact digitChar_ne_s _ (by omega) hlow.symm

theorem hexByte_injective : Function.Injective hexByte := by
  intro a b h
  have ha := a.toNat_lt
  have hb := b.toNat_lt
  obtain ⟨hhigh, hrest⟩ := List.cons.inj h
  obtain ⟨hlow, _⟩ := List.cons.inj hrest
  have hdigit : ∀ m < 16, ∀ n < 16, Nat.digitChar m = Nat.digitChar n → m = n := by decide
  have hdiv := hdigit _ (by omega) _ (by omega) hhigh
  have hmod := hdigit _ (by omega) _ (by omega) hlow
  exact UInt8.toNat.inj (by omega)

theorem flatMap_hexByte_injective :
    Function.Injective fun bytes : Bytes => bytes.flatMap hexByte := by
  intro as
  induction as with
  | nil =>
    rintro (_ | ⟨b, bs⟩) h
    · rfl
    · cases h
  | cons a as ih =>
    rintro (_ | ⟨b, bs⟩) h
    · cases h
    · obtain ⟨hhead, htail⟩ := List.append_inj h rfl
      rw [hexByte_injective hhead, ih htail]

theorem tellsApart_of_eq {content content' : Option Bytes} (h : content = content') :
    TellsApart sha256 content content' := by
  rintro x rfl y hy _
  rw [← h] at hy
  exact Option.some.inj hy

theorem TellsApart.eq_of_mark_eq {content content' : Option Bytes}
    (hsha : TellsApart sha256 content content') (h : mark sha256 content = mark sha256 content') :
    content = content' := by
  rcases content with _ | a <;> rcases content' with _ | b
  · rfl
  · exact absurd h.symm (sha256Hex_ne_absent b)
  · exact absurd h (sha256Hex_ne_absent a)
  · have hdigest := flatMap_hexByte_injective (String.ofList_injective h)
    rw [hsha a rfl b rfl hdigest]

theorem decideAction_noOp_iff {content held : Option Bytes} :
    decideAction sha256 content (held.map (sha256Hex sha256)) = .noOp ↔
      mark sha256 held = mark sha256 content := by
  cases content with
  | none =>
    cases held with
    | none => simp [decideAction, mark]
    | some bytes => simpa [decideAction, mark] using sha256Hex_ne_absent bytes
  | some bytes =>
    cases held with
    | none => simpa [decideAction, mark] using (sha256Hex_ne_absent bytes).symm
    | some bytes' => simp [decideAction, mark]

end Hash

section Grown

variable {sha256 : Bytes → Bytes} {cli : Agent} {h h' : Log}

theorem Placed.mono {dest : Path} (hp : Placed cli h dest) (hsub : ∀ y ∈ h, y ∈ h') :
    Placed cli h' dest := by
  obtain ⟨dir, hdir, rfl⟩ := hp
  exact ⟨dir, hsub _ hdir, rfl⟩

theorem Fetched.mono {kref : KataRef} {text : Option String} (hf : Fetched h kref text)
    (hsub : ∀ y ∈ h, y ∈ h') : Fetched h' kref text := by
  cases hf with
  | configMap hkind hget => exact .configMap hkind (hsub _ hget)
  | secret hkind hget => exact .secret hkind (hsub _ hget)

theorem Sought.mono {node : Machine.Node} {kref : KataRef} {content : Option Bytes}
    (hs : Sought cli h node kref content) (hsub : ∀ y ∈ h, y ∈ h') :
    Sought cli h' node kref content := by
  obtain ⟨text, hfetched, heq⟩ := hs.fetched
  exact ⟨hsub _ hs.saw, hs.ref, text, hfetched.mono hsub, heq⟩

theorem Unsought.mono {node : Machine.Node} (hu : Unsought cli h node) (hsub : ∀ y ∈ h, y ∈ h') :
    Unsought cli h' node :=
  ⟨hsub _ hu.saw, hu.ref⟩

theorem Wanted.mono {content : Option Bytes} (hw : Wanted cli h content)
    (hsub : ∀ y ∈ h, y ∈ h') : Wanted cli h' content := by
  cases hw with
  | nothing hu => exact .nothing (hu.mono hsub)
  | content hs => exact .content (hs.mono hsub)

theorem Calm.cons (hcalm : Calm h) {r : Call} (hr : r.announces = false) (a : Result r) :
    Calm (⟨r, a⟩ :: h) :=
  List.forall_mem_cons.mpr ⟨hr, hcalm⟩

theorem Unwritten.cons (hun : Unwritten h) {r : Call} (hr : r.changesFiles = false) (a : Result r) :
    Unwritten (⟨r, a⟩ :: h) :=
  List.forall_mem_cons.mpr ⟨hr, hun⟩

theorem Stale.cons (hs : Stale sha256 cli h) {r : Call} (hlooks : r.looks = true)
    (hread : ∀ q, r ≠ .readFile q) (a : Result r) : Stale sha256 cli (⟨r, a⟩ :: h) := by
  obtain ⟨dest, held, content, hplaced, hwanted, hknown, hne⟩ := hs
  have hsub : ∀ y ∈ h, y ∈ (⟨r, a⟩ : Sigma Result) :: h := fun _ => List.mem_cons_of_mem _
  exact ⟨dest, held, content, hplaced.mono hsub, hwanted.mono hsub,
    (learned_of_looks hlooks hread).trans hknown, hne⟩

end Grown

section Ends

variable {permits : Log → Call → Prop} {α β : Type} {h : Log} {Q : β → Log → Prop}
  {E : AgentError → Log → Prop}

theorem keeps_orIo {x : Except IoError α} {f : α → Tick β}
    (hok : ∀ a, x = .ok a → Keeps permits (f a) h Q E) (herror : ∀ e, x = .error e → E (.io e) h) :
    Keeps permits (orIo x >>= f) h Q E := by
  cases x with
  | ok a => exact hok a rfl
  | error e => exact keeps_throw (herror e rfl)

theorem keeps_orKube {context : String} {x : Except KubeError α} {f : α → Tick β}
    (hok : ∀ a, x = .ok a → Keeps permits (f a) h Q E)
    (herror : ∀ e, x = .error e → E (.context context (.kube e)) h) :
    Keeps permits (orKube context x >>= f) h Q E := by
  cases x with
  | ok a => exact hok a rfl
  | error e => exact keeps_throw (herror e rfl)

end Ends

section Functions

variable {sha256 : Bytes → Bytes} {cli : Agent} {h : Log}

/-- What holds when a function ends in an error before anything was announced. -/
def Quiet (_ : AgentError) (h : Log) : Prop := Calm h

theorem keeps_look {β : Type} {r : Call} {f : Result r → Tick β} {Q : β → Log → Prop}
    {E : AgentError → Log → Prop} (hcalm : Calm h) (hr : r.looks = true)
    (hf : ∀ a, Calm (⟨r, a⟩ :: h) → Keeps (Permitted sha256 cli) (f a) (⟨r, a⟩ :: h) Q E) :
    Keeps (Permitted sha256 cli) (call r >>= f) h Q E :=
  keeps_ask_bind (.look hcalm hr) fun a => hf a (hcalm.cons (Call.announces_of_looks hr) a)

theorem keeps_confineDestPath (hcalm : Calm h) (hun : Unwritten h) :
    Keeps (Permitted sha256 cli) (confineDestPath cli.hostRoot kataConfigDestPath) h
      (fun dest h' => (Calm h' ∧ Unwritten h' ∧ Placed cli h' dest) ∧ ∀ y ∈ h, y ∈ h') Quiet := by
  refine Keeps.keeping ?_
  have hstart : Text.startsWith kataConfigDestBase kataConfigDestPath = true := by decide +kernel
  have hend : Text.endsWith destFileSuffix kataConfigDestPath = true := by decide +kernel
  have hplain : (((Text.split '/' kataConfigDestPath).drop 1).any fun seg =>
      seg.isEmpty || seg == "." || seg == "..") = false := by decide +kernel
  have hpath : Path.ofString (trimStart kataConfigDestPath) =
      ["etc", "k0s", "containerd.d", "kata.toml"] := by decide +kernel
  have hfull : cli.hostRoot ++ ["etc", "k0s", "containerd.d", "kata.toml"] =
      cli.destParent ++ ["kata.toml"] := by simp [Agent.destParent]
  have hparent : Path.parent (cli.destParent ++ ["kata.toml"]) = some cli.destParent := by
    simp [Path.parent]
  have hname : Path.fileName (cli.destParent ++ ["kata.toml"]) = some "kata.toml" := by
    simp [Path.fileName]
  unfold confineDestPath
  simp only [hstart, hend, hplain, hpath, hfull, hparent, hname, Bool.not_true, Bool.false_eq_true,
    if_false]
  refine keeps_look hcalm rfl fun a₁ hcalm => keeps_orIo (fun _ _ => ?_) fun _ _ => hcalm
  refine keeps_look hcalm rfl fun a₂ hcalm => keeps_orIo (fun _ _ => ?_) fun _ _ => hcalm
  refine keeps_look hcalm rfl fun a₃ hcalm => keeps_orIo (fun dir hdir => ?_) fun _ _ => hcalm
  refine keeps_look hcalm rfl fun a₄ hcalm => keeps_orIo (fun base _ => ?_) fun _ _ => hcalm
  split
  · exact keeps_throw hcalm
  · refine keeps_pure ⟨hcalm, ?_, dir, ?_, rfl⟩
    · exact (((hun.cons rfl a₁).cons rfl a₂).cons rfl a₃).cons rfl a₄
    · simp [hdir]

theorem keeps_fileSha256 {dest : Path} (hcalm : Calm h) (hun : Unwritten h) :
    Keeps (Permitted sha256 cli) (fileSha256 sha256 dest) h
      (fun destHash h' => (Calm h' ∧ Unwritten h' ∧ ∃ held, known h' dest = some held ∧
        destHash = held.map (sha256Hex sha256)) ∧ ∀ y ∈ h, y ∈ h') Quiet := by
  refine Keeps.keeping (keeps_look hcalm rfl fun a hcalm => ?_)
  have hun := hun.cons (r := .readFile dest) rfl a
  split
  · exact keeps_pure ⟨hcalm, hun, some _, by simp [known, learned], rfl⟩
  · exact keeps_pure ⟨hcalm, hun, none, by simp [known, learned], rfl⟩
  · exact keeps_throw hcalm

theorem keeps_touch {β : Type} {r : Call} {f : Result r → Tick β} {Q : β → Log → Prop}
    {E : AgentError → Log → Prop} {dest : Path} (hcalm : Calm h) (hr : r.changesFiles = true)
    (hannounces : r.announces = false) (hplaced : Placed cli h dest) (hwithin : r.within dest)
    (hdue : Stale sha256 cli h ∨ ∃ x ∈ h, x.1.changesFiles = true)
    (hf : ∀ a, Calm (⟨r, a⟩ :: h) → Placed cli (⟨r, a⟩ :: h) dest →
      Keeps (Permitted sha256 cli) (f a) (⟨r, a⟩ :: h) Q E) :
    Keeps (Permitted sha256 cli) (call r >>= f) h Q E :=
  keeps_ask_bind (.touch hcalm hr hplaced hwithin hdue) fun a =>
    hf a (hcalm.cons hannounces a) (hplaced.mono fun _ => List.mem_cons_of_mem _)

theorem keeps_atomicWrite {dest : Path} {content : Bytes} (hcalm : Calm h)
    (hplaced : Placed cli h dest) (hstale : Stale sha256 cli h) :
    Keeps (Permitted sha256 cli) (atomicWrite dest content) h
      (fun _ h' => (Calm h' ∧ known h' dest = some (some content)) ∧ ∀ y ∈ h, y ∈ h') Quiet := by
  refine Keeps.keeping ?_
  unfold atomicWrite
  refine keeps_look hcalm rfl fun a₁ hcalm => keeps_orIo (fun _ _ => ?_) fun _ _ => hcalm
  have hstale := hstale.cons (r := .createDirAll (dest.parent.getD [])) rfl (by rintro _ ⟨⟩) a₁
  refine keeps_look hcalm rfl fun pid hcalm => ?_
  have hstale := hstale.cons (r := .processId) rfl (by rintro _ ⟨⟩) pid
  have hplaced : Placed cli (⟨.processId, pid⟩ :: ⟨.createDirAll _, a₁⟩ :: h) dest :=
    hplaced.mono fun y hy => by simp [hy]
  have hown : Own dest (tempPathFor (dest.parent.getD []) dest pid) := .inr ⟨pid, rfl⟩
  refine keeps_touch hcalm rfl rfl hplaced hown (.inl hstale) fun a₃ hcalm hplaced => ?_
  refine keeps_touch hcalm rfl rfl hplaced hown (.inr ⟨_, List.mem_cons_self, rfl⟩)
    fun a₄ hcalm hplaced => keeps_orIo (fun _ hwrote => ?_) fun _ _ => hcalm
  subst hwrote
  refine keeps_look hcalm rfl fun a₅ hcalm => keeps_orIo (fun _ _ => ?_) fun _ _ => hcalm
  have hplaced := hplaced.mono fun y hy => List.mem_cons_of_mem ⟨.setPermissions _ _, a₅⟩ hy
  refine keeps_touch hcalm rfl rfl hplaced ⟨hown, .inl rfl⟩
    (.inr ⟨_, List.mem_cons_of_mem _ List.mem_cons_self, rfl⟩) fun a₆ hcalm hplaced => ?_
  split
  · exact keeps_pure ⟨hcalm, by simp [known, learned]⟩
  · refine keeps_touch hcalm rfl rfl hplaced hown (.inr ⟨_, List.mem_cons_self, rfl⟩)
      fun _ hcalm _ => keeps_throw hcalm

theorem keeps_removeIfPresent {dest : Path} (hcalm : Calm h) (hplaced : Placed cli h dest)
    (hstale : Stale sha256 cli h) :
    Keeps (Permitted sha256 cli) (removeIfPresent dest) h
      (fun _ h' => (Calm h' ∧ known h' dest = some none) ∧ ∀ y ∈ h, y ∈ h') Quiet := by
  refine Keeps.keeping (keeps_touch hcalm rfl rfl hplaced (.inl rfl) (.inl hstale)
    fun a hcalm _ => ?_)
  split
  · exact keeps_pure ⟨hcalm, by simp [known, learned]⟩
  · exact keeps_pure ⟨hcalm, by simp [known, learned]⟩
  · exact keeps_throw hcalm

theorem keeps_syncContent {dest : Path} {content : Option Bytes} (hcalm : Calm h)
    (hun : Unwritten h) (hplaced : Placed cli h dest) (hwanted : Wanted cli h content) :
    Keeps (Permitted sha256 cli) (syncContent sha256 content dest) h
      (fun outcome h' => (Calm h' ∧ Synced sha256 cli h' content ∧
        intendedHashFor outcome = mark sha256 content) ∧ ∀ y ∈ h, y ∈ h') Quiet := by
  refine Keeps.keeping ((keeps_fileSha256 hcalm hun).bind ?_ fun _ _ he => he)
  rintro _ h₁ ⟨⟨hcalm, hun, held, hknown, rfl⟩, hsub⟩
  have hplaced := hplaced.mono hsub
  have hstale : mark sha256 held ≠ mark sha256 content → Stale sha256 cli h₁ := fun hne =>
    ⟨dest, held, content, hplaced, hwanted.mono hsub, hknown, hne⟩
  split
  case h_1 hwrite =>
    have hdue := hstale fun heq => by simp [decideAction_noOp_iff.mpr heq] at hwrite
    split
    case h_1 bytes =>
      refine (keeps_atomicWrite hcalm hplaced hdue).bind ?_ fun _ _ he => he
      rintro _ h₂ ⟨⟨hcalm, hknown⟩, hsub⟩
      exact keeps_pure ⟨hcalm, ⟨dest, some bytes, hplaced.mono hsub, hknown, rfl⟩, rfl⟩
    case h_2 => exact keeps_throw hcalm
  case h_2 hdelete =>
    have hdue := hstale fun heq => by simp [decideAction_noOp_iff.mpr heq] at hdelete
    refine (keeps_removeIfPresent hcalm hplaced hdue).bind ?_ fun _ _ he => he
    rintro _ h₂ ⟨⟨hcalm, hknown⟩, hsub⟩
    cases content with
    | none => exact keeps_pure ⟨hcalm, ⟨dest, none, hplaced.mono hsub, hknown, rfl⟩, rfl⟩
    | some bytes =>
      simp only [decideAction] at hdelete
      split at hdelete <;> cases hdelete
  case h_3 hnoOp =>
    have hmark := decideAction_noOp_iff.mp hnoOp
    refine keeps_pure ⟨hcalm, ⟨dest, held, hplaced, hknown, hmark⟩, ?_⟩
    rw [← hmark]
    cases held <;> rfl

theorem keeps_readNodeState :
    Keeps (Permitted sha256 cli) (readNodeState cli.json cli.nodeName) []
      (fun state h => Calm h ∧ Unwritten h ∧ ∃ node, state.applied = appliedHash node ∧
        ((state.kataRef = none ∧ Unsought cli h node) ∨ ∃ kref, state.kataRef = some kref ∧
          Saw cli h node ∧ ∃ raw, refText node = some raw ∧
            parseKataRef cli.json raw = .ok kref)) Quiet := by
  have hcalm : ∀ a, Calm [⟨.getNode cli.nodeName, a⟩] := fun a => by simp [Calm, Call.announces]
  have hun : ∀ a, Unwritten [⟨.getNode cli.nodeName, a⟩] := fun a => by
    simp [Unwritten, Call.changesFiles]
  refine keeps_ask_bind .getNode fun a => keeps_orKube (fun node hnode => ?_) fun _ _ => hcalm a
  subst hnode
  have hsaw : Saw cli [⟨.getNode cli.nodeName, .ok node⟩] node := List.mem_cons_self
  split
  case h_1 href => exact keeps_pure ⟨hcalm _, hun _, node, rfl, .inl ⟨rfl, hsaw, href⟩⟩
  case h_2 raw href =>
    split
    case h_1 kref hparse =>
      exact keeps_pure ⟨hcalm _, hun _, node, rfl, .inr ⟨kref, rfl, hsaw, raw, href, hparse⟩⟩
    case h_2 => exact keeps_throw (hcalm _)

theorem keeps_fetchContent {kref : KataRef} (hcalm : Calm h) (hun : Unwritten h) :
    Keeps (Permitted sha256 cli) (fetchContent kref) h
      (fun content h' => (Calm h' ∧ Unwritten h' ∧ Fetched h' kref content) ∧ ∀ y ∈ h, y ∈ h')
      Quiet := by
  refine Keeps.keeping ?_
  unfold fetchContent
  split
  case isTrue hkind =>
    refine keeps_look hcalm rfl fun a hcalm => ?_
    split
    · exact keeps_pure ⟨hcalm, hun.cons rfl _, .configMap hkind List.mem_cons_self⟩
    · exact keeps_throw hcalm
  case isFalse =>
    split
    case isTrue hkind =>
      refine keeps_look hcalm rfl fun a hcalm => ?_
      split
      · exact keeps_pure ⟨hcalm, hun.cons rfl _, .secret hkind List.mem_cons_self⟩
      · exact keeps_throw hcalm
    case isFalse => exact keeps_throw hcalm

theorem keeps_restartIfNeeded {node : Machine.Node} {kref : KataRef} {content : Option Bytes}
    (hdue : Due sha256 cli h node kref content) :
    Keeps (Permitted sha256 cli)
      (restartIfNeeded (appliedHash node) (mark sha256 content) kref.restartService)
      (⟨recordCall sha256 cli content, .ok ()⟩ :: h) (fun _ h' => Returned sha256 cli (.ok ()) h')
      fun _ h' => ∀ e, Returned sha256 cli (.error e) h' := by
  have hneeds : needsRestart (appliedHash node) (mark sha256 content) = true :=
    bne_iff_ne.mpr hdue.outdated
  unfold restartIfNeeded restart
  simp only [hneeds, Bool.not_true, Bool.false_eq_true, if_false]
  refine Keeps.bind (Q := fun _ h' => Returned sha256 cli (.ok ()) h') ?_
    (fun _ _ hr => keeps_pure hr) fun _ _ he => he
  refine keeps_ask_bind (.restart hdue) fun a => keeps_orIo (fun status hstatus => ?_) ?_
  · subst hstatus
    split
    case isTrue hsuccess => exact keeps_pure (.restarted hdue hsuccess)
    case isFalse hfail =>
      refine keeps_throw fun e => .notRestarted hdue ?_
      rintro _ ⟨⟩
      exact Bool.not_eq_true _ ▸ hfail
  · rintro e rfl e'
    exact .notRestarted hdue (by rintro _ ⟨⟩)

theorem keeps_reconcileOnce :
    Keeps (Permitted sha256 cli) (reconcileOnce sha256 cli) []
      (fun a h => Returned sha256 cli (.ok a) h) fun e h => Returned sha256 cli (.error e) h := by
  have hquiet : ∀ e h, Quiet e h → Returned sha256 cli (.error e) h := fun _ _ hcalm => .failed hcalm
  refine keeps_readNodeState.bind ?_ hquiet
  rintro ⟨kataRef, applied⟩ h₁ ⟨hcalm, hun, node, rfl, ⟨rfl, hunsought⟩ | ⟨kref, rfl, hsaw, href⟩⟩
  · refine (keeps_confineDestPath hcalm hun).bind ?_ hquiet
    rintro dest h₂ ⟨⟨hcalm, hun, hplaced⟩, hsub⟩
    have hunsought := hunsought.mono hsub
    refine (keeps_syncContent hcalm hun hplaced (.nothing hunsought)).bind ?_ hquiet
    rintro outcome h₃ ⟨⟨hcalm, hsynced, _⟩, hsub⟩
    have hunsought := hunsought.mono hsub
    refine keeps_ask_bind (.clear hcalm hunsought hsynced) fun a => ?_
    cases a with
    | ok _ => exact keeps_pure (.tornDown hcalm hunsought hsynced)
    | error e => exact keeps_throw (.notTornDown hcalm)
  · refine (keeps_confineDestPath hcalm hun).bind ?_ hquiet
    rintro dest h₂ ⟨⟨hcalm, hun, hplaced⟩, hsub₂⟩
    refine (keeps_fetchContent hcalm hun).bind ?_ hquiet
    rintro text h₃ ⟨⟨hcalm, hun, hfetched⟩, hsub₃⟩
    have hsought : Sought cli h₃ node kref (text.map asBytes) :=
      ⟨hsub₃ _ (hsub₂ _ hsaw), href, text, hfetched, rfl⟩
    refine (keeps_syncContent hcalm hun (hplaced.mono hsub₃) (.content hsought)).bind ?_ hquiet
    rintro outcome h₄ ⟨⟨hcalm, hsynced, hintended⟩, hsub₄⟩
    have hsought := hsought.mono hsub₄
    simp only [hintended]
    split
    case isFalse hcurrent =>
      exact keeps_pure (.upToDate hcalm hsought hsynced (by simpa [needsRestart] using hcurrent))
    case isTrue hneeds =>
      have hdue : Due sha256 cli h₄ node kref (text.map asBytes) :=
        ⟨hcalm, hsought, hsynced, by simpa [needsRestart] using hneeds⟩
      refine Keeps.bind (Q := fun _ h' => h' = ⟨recordCall sha256 cli (text.map asBytes), .ok ()⟩ :: h₄)
        (E := fun e h' => Returned sha256 cli (.error e) h') ?_ ?_ fun _ _ he => he
      · refine keeps_ask_bind (.record hdue) fun a => ?_
        cases a with
        | ok _ => exact keeps_pure rfl
        | error e => exact keeps_throw (.notRecorded hcalm)
      · rintro _ _ rfl
        exact (keeps_restartIfNeeded hdue).attempt (fun _ _ hr => keeps_pure hr)
          fun _ _ he => keeps_throw (he _)

end Functions

section Contract

variable (sha256 : Bytes → Bytes) (cli : Agent)

def agentContract : Contract Call Result World (Except AgentError Unit) where
  answers _ _ _ := True
  permits _ h r := Permitted sha256 cli h r
  returns _ result h := Returned sha256 cli result h

theorem agentContract_binds (w : World) :
    (agentContract sha256 cli).Binds w [] ((agentSystem sha256 cli).program w) := by
  have hkeeps : Keeps (Permitted sha256 cli) (reconcileOnce sha256 cli) [] _ _ := keeps_reconcileOnce
  refine hkeeps.meets.mono fun result h hr => ?_
  cases result <;> exact hr

end Contract

end FiveSpot.Kata
