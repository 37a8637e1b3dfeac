import FiveSpot.Data.Sha256
import FiveSpot.Kata.Conformance

/-!
# What a call of the agent leaves alone

The effect of each call on the Node, the sources, the files and the loaded content, and what the tick
in flight knows as long as nobody else interferes.
-/

namespace FiveSpot.Kata

set_option autoImplicit false

open Effects Utf8

abbrev AgentView := View Call Result World Reply (Except AgentError Unit)

abbrev AgentGuard := Guard Call Result World Reply (Except AgentError Unit)

abbrev AgentObs := Obs Call Result World Reply (Except AgentError Unit)

namespace World

variable (cli : Agent) (w : World)

def refText : Option String := (w.nodes cli.nodeName).bind Kata.refText

def applied : Option String := (w.nodes cli.nodeName).bind appliedHash

def reference : Option KataRef :=
  (w.refText cli).bind fun raw => (parseKataRef cli.json raw).toOption

def sourceBytes (kref : KataRef) : Option Bytes :=
  if kref.kind = kindConfigMap then
    (configMapText (w.configMaps kref.ns kref.name) kref.key).map asBytes
  else secretBytes (w.secrets kref.ns kref.name) kref.key

def deliverable (kref : KataRef) : Option Bytes :=
  (w.sourceBytes kref).map fun bytes => asBytes (fromUtf8Lossy bytes)

end World

section Exec

inductive Effect (cli : Agent) (w : World) : Call → World → Prop where
  | same {r : Call} : Effect cli w r w
  | node {name : String} {p : Machine.NodePatch} {n : Machine.Node} : w.nodes name = some n →
      Effect cli w (.patchNode name p)
        { w with nodes := Function.update w.nodes name (some (p.apply n)) }
  | files {r : Call} {files : Path → Option Bytes} : r.changesFiles = true →
      Effect cli w r { w with files := files }
  | reload {argv : List String} : Effect cli w (.command argv) (w.reload cli)

variable {cli : Agent} {w w' : World} {r : Call} {c : Reply}

theorem effect_write {after : Except IoError World}
    (hafter : ∀ w', after = .ok w' → Effect cli w r w') : Effect cli w r (c.write w after).2 := by
  unfold Reply.write
  split
  · exact hafter _ rfl
  · exact .same
  · exact hafter _ rfl
  · exact .same

theorem effect_patchNode {name : String} {p : Machine.NodePatch} (h : w.patchNode name p = .ok w') :
    Effect cli w (.patchNode name p) w' := by
  unfold World.patchNode at h
  split at h <;> cases h
  rename_i hnode
  exact .node hnode

theorem exec_effect (w : World) (r : Call) (c : Reply) : Effect cli w r (w.exec cli r c).2 := by
  cases r with
  | patchNode name p =>
    simp only [World.exec]
    unfold writeAnswer
    split
    case h_1 h => exact effect_patchNode h
    case h_2 => exact .same
    case h_3 h => exact effect_patchNode h
    case h_4 => exact .same
  | createDirAll _ | setPermissions _ _ =>
    refine effect_write fun w' h => ?_
    cases h
    exact .same
  | writeFile p content =>
    refine effect_write fun w' h => ?_
    cases h
    exact .files rfl
  | rename p q =>
    refine effect_write fun w' h => ?_
    unfold World.rename at h
    split at h <;> cases h
    exact .files rfl
  | removeFile p =>
    refine effect_write fun w' h => ?_
    unfold World.removeFile at h
    split at h <;> cases h
    exact .files rfl
  | command _ =>
    simp only [World.exec]
    split
    · exact .same
    · split
      · exact .reload
      · exact .same
    · exact .reload
  | _ => exact .same

theorem Effect.sourceBytes (h : Effect cli w r w') (kref : KataRef) :
    w'.sourceBytes kref = w.sourceBytes kref := by
  cases h <;> rfl

theorem Effect.resolve (h : Effect cli w r w') : w'.resolve = w.resolve := by
  cases h <;> rfl

theorem Effect.hostFile (h : Effect cli w r w') : w'.hostFile cli = w.hostFile cli := by
  rw [World.hostFile, World.hostFile, h.resolve]

theorem Effect.nodes (h : Effect cli w r w') (hr : r.announces = false) : w'.nodes = w.nodes := by
  cases h with
  | node _ => cases hr
  | same | files _ | reload => rfl

theorem Effect.loaded (h : Effect cli w r w') (hr : ∀ argv, r ≠ .command argv) :
    w'.loaded = w.loaded := by
  cases h with
  | reload => exact absurd rfl (hr _)
  | same | files _ | node _ => rfl

theorem Effect.unchanged (h : Effect cli w r w') (hr : r.changesFiles = false) :
    w'.files = w.files := by
  cases h with
  | files hr' => simp [hr] at hr'
  | same | node _ | reload => rfl

end Exec

section Patches

variable {cli : Agent} {w w' : World} {p : Machine.NodePatch}

theorem lookup_recordPatch (n : Machine.Node) (hash : String) :
    Kata.refText ((recordPatch hash).apply n) = Kata.refText n ∧
      appliedHash ((recordPatch hash).apply n) = some hash := by
  have hne : Machine.kataConfigRefAnnotation ≠ kataConfigAppliedAnnotation := by decide
  constructor
  · simpa [Kata.refText, recordPatch, Machine.NodePatch.apply, Machine.applyMap,
      Machine.StringMap.lookup_insert] using fun h => absurd h hne
  · simp [appliedHash, recordPatch, Machine.NodePatch.apply, Machine.applyMap,
      Machine.StringMap.lookup_insert]

theorem lookup_clearPatch (n : Machine.Node) :
    Kata.refText (clearPatch.apply n) = Kata.refText n ∧ appliedHash (clearPatch.apply n) = none := by
  have hne : Machine.kataConfigRefAnnotation ≠ kataConfigAppliedAnnotation := by decide
  constructor
  · simp [Kata.refText, clearPatch, Machine.NodePatch.apply, Machine.applyMap,
      Machine.StringMap.lookup_filter_ne, hne]
  · simp [appliedHash, clearPatch, Machine.NodePatch.apply, Machine.applyMap,
      Machine.StringMap.lookup_filter_ne]

theorem Effect.refText {r : Call} (h : Effect cli w r w')
    (hr : ∀ name p, r = .patchNode name p → p = clearPatch ∨ ∃ hash, p = recordPatch hash) :
    w'.refText cli = w.refText cli := by
  cases h with
  | same | files _ | reload => rfl
  | @node name p n hnode =>
    have hsame : Kata.refText (p.apply n) = Kata.refText n := by
      rcases hr name p rfl with rfl | ⟨hash, rfl⟩
      · exact (lookup_clearPatch n).1
      · exact (lookup_recordPatch n hash).1
    unfold World.refText
    by_cases hname : cli.nodeName = name
    · subst hname
      simpa [hnode] using hsame
    · simp [hname]

theorem exec_patchNode_ok {c : Reply} {name : String}
    (h : (w.exec cli (.patchNode name p) c).1 = .ok ()) : ∃ n, w.nodes name = some n ∧
      (w.exec cli (.patchNode name p) c).2 =
        { w with nodes := Function.update w.nodes name (some (p.apply n)) } := by
  obtain ⟨hc, w', hw'⟩ := writeAnswer_fst_eq_ok h
  have hpatched := hw'
  unfold World.patchNode at hw'
  split at hw' <;> cases hw'
  rename_i n hnode
  refine ⟨n, hnode, ?_⟩
  simp only [World.exec, hc, hpatched]
  rfl

theorem applied_update {n : Machine.Node} :
    ({ w with nodes := Function.update w.nodes cli.nodeName (some n) } : World).applied cli =
      appliedHash n := by
  simp [World.applied]

theorem exec_record_ok {c : Reply} {hash : String}
    (h : (w.exec cli (.patchNode cli.nodeName (recordPatch hash)) c).1 = .ok ()) :
    (w.exec cli (.patchNode cli.nodeName (recordPatch hash)) c).2.applied cli = some hash := by
  obtain ⟨n, _, hafter⟩ := exec_patchNode_ok h
  rw [hafter, applied_update]
  exact (lookup_recordPatch n hash).2

theorem Effect.clear (h : Effect cli w (.patchNode cli.nodeName clearPatch) w') :
    w'.applied cli = w.applied cli ∨ w'.applied cli = none := by
  cases h with
  | same => exact .inl rfl
  | files hfiles => cases hfiles
  | @node _ _ n hnode => exact .inr (applied_update.trans (lookup_clearPatch n).2)

end Patches

section Answers

variable {cli : Agent} {w : World} {c : Reply}

theorem exec_getNode_ok {name : String} {node : Machine.Node}
    (h : (w.exec cli (.getNode name) c).1 = .ok node) : w.nodes name = some node := by
  have hanswer := readAnswer_eq_ok h
  split at hanswer <;> cases hanswer
  assumption

theorem exec_getConfigMap_ok {ns name : String} {object : Option ConfigMap}
    (h : (w.exec cli (.getConfigMap ns name) c).1 = .ok object) : w.configMaps ns name = object :=
  Except.ok.inj (readAnswer_eq_ok h)

theorem exec_getSecret_ok {ns name : String} {object : Option Secret}
    (h : (w.exec cli (.getSecret ns name) c).1 = .ok object) : w.secrets ns name = object :=
  Except.ok.inj (readAnswer_eq_ok h)

theorem exec_canonicalize_ok {path dir : Path}
    (h : (w.exec cli (.canonicalize path) c).1 = .ok dir) : dir = w.resolve path := by
  cases c <;> cases h <;> rfl

theorem mem_called {h : Log} {q r : Call} {a : Result q} {b : Result r}
    (hmem : ⟨q, a⟩ ∈ (⟨r, b⟩ : Sigma Result) :: h) : (∃ heq : r = q, heq ▸ b = a) ∨ ⟨q, a⟩ ∈ h := by
  rcases List.mem_cons.mp hmem with heq | hmem
  · cases heq
    exact .inl ⟨rfl, rfl⟩
  · exact .inr hmem

end Answers

section Permitted

variable {sha256 : Bytes → Bytes} {cli : Agent} {h : Log}

theorem Permitted.patch {name : String} {p : Machine.NodePatch}
    (hr : Permitted sha256 cli h (.patchNode name p)) :
    name = cli.nodeName ∧ (p = clearPatch ∨ ∃ content, p = recordPatch (mark sha256 content)) := by
  cases hr with
  | look _ hlooks => cases hlooks
  | touch _ hchanges => cases hchanges
  | clear => exact ⟨rfl, .inl rfl⟩
  | @record _ _ _ content _ => exact ⟨rfl, .inr ⟨content, rfl⟩⟩

theorem Permitted.touches {r : Call} (hr : Permitted sha256 cli h r) (hchanges : r.changesFiles = true) :
    ∃ dest, Placed cli h dest ∧ r.within dest ∧
      (Stale sha256 cli h ∨ ∃ x ∈ h, x.1.changesFiles = true) := by
  cases hr with
  | getNode | clear | record | restart => cases hchanges
  | look _ hlooks => simp [Call.changesFiles_of_looks hlooks] at hchanges
  | touch _ _ hplaced hwithin hdue => exact ⟨_, hplaced, hwithin, hdue⟩

theorem Effect.refText_of_permitted {w w' : World} {r : Call} (heffect : Effect cli w r w')
    (hr : Permitted sha256 cli h r) : w'.refText cli = w.refText cli := by
  refine heffect.refText ?_
  rintro name p rfl
  rcases hr.patch.2 with hclear | ⟨content, hrecord⟩
  · exact .inl hclear
  · exact .inr ⟨_, hrecord⟩

end Permitted

section Reads

/-- The answers of the tick in flight still tell the reference and its source. -/
structure Reads (cli : Agent) (w : World) (h : Log) : Prop where
  ref : ∀ node, Saw cli h node → Kata.refText node = w.refText cli
  source : ∀ kref text, w.reference cli = some kref → Fetched h kref text →
    text = (w.sourceBytes kref).map fromUtf8Lossy

variable {sha256 : Bytes → Bytes} {cli : Agent} {w w' : World} {h : Log}

theorem Reads.nil : Reads cli w [] := by
  constructor
  · intro node hsaw
    cases hsaw
  · intro kref text _ hfetched
    cases hfetched with
    | configMap _ hget | secret _ hget => cases hget

structure SameSource (cli : Agent) (w w' : World) : Prop where
  ref : w'.refText cli = w.refText cli
  source : ∀ kref, w.reference cli = some kref → w'.sourceBytes kref = w.sourceBytes kref

theorem SameSource.reference (hs : SameSource cli w w') : w'.reference cli = w.reference cli := by
  rw [World.reference, World.reference, hs.ref]

theorem Reads.same (hv : Reads cli w h) (hs : SameSource cli w w') : Reads cli w' h := by
  refine ⟨fun node hsaw => (hv.ref node hsaw).trans hs.ref.symm, fun kref text href hfetched => ?_⟩
  rw [hs.reference] at href
  rw [hs.source kref href]
  exact hv.source kref text href hfetched

theorem Effect.sameSource {r : Call} (heffect : Effect cli w r w') (hr : Permitted sha256 cli h r) :
    SameSource cli w w' :=
  ⟨heffect.refText_of_permitted hr, fun kref _ => heffect.sourceBytes kref⟩

theorem Reads.called {r : Call} {c : Reply} (hv : Reads cli w h) (hr : Permitted sha256 cli h r) :
    Reads cli (w.exec cli r c).2 (⟨r, (w.exec cli r c).1⟩ :: h) := by
  suffices hreads : Reads cli w (⟨r, (w.exec cli r c).1⟩ :: h) from
    hreads.same ((exec_effect w r c).sameSource hr)
  constructor
  · intro node hsaw
    rcases mem_called hsaw with ⟨rfl, hanswer⟩ | hbefore
    · simp [World.refText, exec_getNode_ok hanswer]
    · exact hv.ref node hbefore
  · intro kref text href hfetched
    cases hfetched with
    | @configMap object hkind hget =>
      rcases mem_called hget with ⟨rfl, hanswer⟩ | hbefore
      · have hobject := exec_getConfigMap_ok hanswer
        simp [World.sourceBytes, hkind, hobject, Function.comp_def, fromUtf8Lossy_asBytes]
      · exact hv.source kref _ href (.configMap hkind hbefore)
    | @secret object hkind hget =>
      rcases mem_called hget with ⟨rfl, hanswer⟩ | hbefore
      · have hobject := exec_getSecret_ok hanswer
        have hne : kref.kind ≠ kindConfigMap := by
          rw [hkind]
          decide
        simp [World.sourceBytes, hne, hobject]
      · exact hv.source kref _ href (.secret hkind hbefore)

theorem Reads.sought {node : Machine.Node} {kref : KataRef} {content : Option Bytes}
    (hv : Reads cli w h) (hs : Sought cli h node kref content) :
    w.reference cli = some kref ∧ content = w.deliverable kref := by
  obtain ⟨raw, hraw, hparse⟩ := hs.ref
  have href : w.reference cli = some kref := by
    simp [World.reference, ← hv.ref node hs.saw, hraw, hparse, Except.toOption]
  obtain ⟨text, hfetched, rfl⟩ := hs.fetched
  refine ⟨href, ?_⟩
  rw [hv.source kref text href hfetched, World.deliverable, Option.map_map]
  rfl

theorem Reads.unsought {node : Machine.Node} (hv : Reads cli w h) (hu : Unsought cli h node) :
    w.reference cli = none := by
  simp [World.reference, ← hv.ref node hu.saw, hu.ref]

end Reads

section Tracks

/-- What the tick in flight knows of its own files is still true. -/
structure Tracks (cli : Agent) (w : World) (h : Log) : Prop where
  resolved : ∀ dir, ⟨.canonicalize cli.destParent, .ok dir⟩ ∈ h → dir = w.resolve cli.destParent
  files : ∀ p held, Own (w.hostFile cli) p → known h p = some held → w.files p = held

/-- The drop-in, its directory and the temporary files next to it are the same in both worlds. -/
structure SameFiles (cli : Agent) (w w' : World) : Prop where
  resolve : w'.resolve cli.destParent = w.resolve cli.destParent
  files : ∀ p, Own (w.hostFile cli) p → w'.files p = w.files p

variable {sha256 : Bytes → Bytes} {cli : Agent} {w w' : World} {h : Log}

theorem SameFiles.hostFile (hs : SameFiles cli w w') : w'.hostFile cli = w.hostFile cli := by
  rw [World.hostFile, World.hostFile, hs.resolve]

theorem Tracks.nil : Tracks cli w [] := by
  constructor
  · intro dir hmem
    cases hmem
  · intro p held _ hknown
    cases hknown

theorem Tracks.same (hv : Tracks cli w h) (hs : SameFiles cli w w') : Tracks cli w' h := by
  refine ⟨fun dir hdir => (hv.resolved dir hdir).trans hs.resolve.symm, fun p held hown hknown => ?_⟩
  rw [hs.hostFile] at hown
  rw [hs.files p hown]
  exact hv.files p held hown hknown

theorem Tracks.placed (hv : Tracks cli w h) {dest : Path} (hp : Placed cli h dest) :
    dest = w.hostFile cli := by
  obtain ⟨dir, hdir, rfl⟩ := hp
  rw [World.hostFile, ← hv.resolved dir hdir]

def Sound (own : Path → Prop) (files : Path → Option Bytes) (k : Path → Option (Option Bytes)) :
    Prop :=
  ∀ p held, own p → k p = some held → files p = held

section Sound

variable {own : Path → Prop} {files : Path → Option Bytes} {k : Path → Option (Option Bytes)}

theorem Sound.update (hk : Sound own files k) (q : Path) {x : Option (Option Bytes)}
    {y : Option Bytes} (hx : ∀ held, x = some held → y = held) :
    Sound own (Function.update files q y) (Function.update k q x) := by
  intro p held hown hknown
  by_cases hp : p = q
  · subst hp
    rw [Function.update_self] at hknown ⊢
    exact hx held hknown
  · rw [Function.update_of_ne hp] at hknown ⊢
    exact hk p held hown hknown

theorem Sound.learn (hk : Sound own files k) (q : Path) {x : Option (Option Bytes)}
    (hx : ∀ held, x = some held → files q = held) : Sound own files (Function.update k q x) := by
  have h := hk.update q hx
  rwa [Function.update_eq_self] at h

theorem Sound.forget (hk : Sound own files k) (q : Path) :
    Sound own files (Function.update k q none) :=
  hk.learn q (by rintro _ ⟨⟩)

end Sound

theorem learned_sound {own : Path → Prop} {k : Path → Option (Option Bytes)} {r : Call} (c : Reply)
    (hk : Sound own w.files k) (hrename : ∀ p q, r = .rename p q → own p) :
    Sound own (w.exec cli r c).2.files (learned k r (w.exec cli r c).1) := by
  cases r with
  | readFile q =>
    cases c with
    | io text applied => exact hk
    | ok | kube _ _ | exit _ =>
      cases hfile : w.files q <;> simp only [World.exec, hfile] <;>
        exact hk.learn q (by rintro _ ⟨⟩; exact hfile)
  | writeFile q content =>
    have hwritten := hk.update q (x := some (some content)) (y := some content) (by rintro _ ⟨⟩; rfl)
    have hlost := hk.update q (x := none) (y := some content) (by rintro _ ⟨⟩)
    cases c with
    | io text applied =>
      cases applied with
      | true => exact hlost
      | false => exact hk.forget q
    | ok | kube _ _ | exit _ => exact hwritten
  | removeFile q =>
    cases hfile : w.files q with
    | none =>
      have hafter : w.removeFile q = .error .notFound := by simp only [World.removeFile, hfile]
      simp only [World.exec, hafter]
      cases c with
      | io text applied => cases applied <;> exact hk.forget q
      | ok | kube _ _ | exit _ => exact hk.learn q (by rintro _ ⟨⟩; exact hfile)
    | some content =>
      have hafter : w.removeFile q = .ok (w.setFile q none) := by simp only [World.removeFile, hfile]
      simp only [World.exec, hafter]
      cases c with
      | io text applied =>
        cases applied with
        | true => exact hk.update q (by rintro _ ⟨⟩)
        | false => exact hk.forget q
      | ok | kube _ _ | exit _ => exact hk.update q (by rintro _ ⟨⟩; rfl)
  | rename p q =>
    cases hfile : w.files p with
    | none =>
      have hafter : w.rename p q = .error .notFound := by simp only [World.rename, hfile]
      simp only [World.exec, hafter]
      cases c with
      | io text applied => cases applied <;> exact (hk.forget p).forget q
      | ok | kube _ _ | exit _ => exact (hk.forget p).forget q
    | some content =>
      have hafter : w.rename p q = .ok ((w.setFile p none).setFile q (some content)) := by
        simp only [World.rename, hfile]
      simp only [World.exec, hafter]
      cases c with
      | io text applied =>
        cases applied with
        | true => exact (hk.update p (by rintro _ ⟨⟩)).update q (by rintro _ ⟨⟩)
        | false => exact (hk.forget p).forget q
      | ok | kube _ _ | exit _ =>
        refine (hk.update p (by rintro _ ⟨⟩; rfl)).update q fun held hheld => ?_
        exact hfile.symm.trans (hk p held (hrename p q rfl) hheld)
  | patchNode name patch =>
    rw [(exec_effect w _ c).unchanged rfl]
    exact hk
  | command argv =>
    rw [(exec_effect w _ c).unchanged rfl]
    exact hk
  | createDirAll path =>
    rw [(exec_effect w _ c).unchanged rfl]
    exact hk
  | setPermissions path mode =>
    rw [(exec_effect w _ c).unchanged rfl]
    exact hk
  | getNode _ | getConfigMap _ _ | getSecret _ _ | canonicalize _ | processId => exact hk

theorem Tracks.called {r : Call} {c : Reply} (hv : Tracks cli w h) (hr : Permitted sha256 cli h r) :
    Tracks cli (w.exec cli r c).2 (⟨r, (w.exec cli r c).1⟩ :: h) := by
  have heffect : Effect cli w r (w.exec cli r c).2 := exec_effect w r c
  constructor
  · intro dir hdir
    rw [heffect.resolve]
    rcases mem_called hdir with ⟨rfl, hanswer⟩ | hbefore
    · exact exec_canonicalize_ok hanswer
    · exact hv.resolved dir hbefore
  · rw [heffect.hostFile]
    refine learned_sound c hv.files ?_
    rintro p q rfl
    -- a rename is a step of the write, from the temporary file to the drop-in
    obtain ⟨dest, hplaced, ⟨hown, _⟩, _⟩ := hr.touches rfl
    rw [← hv.placed hplaced]
    exact hown

end Tracks

section Sample

def sampleCli : Agent := ⟨⟨"worker", ["host"]⟩, Json.reader⟩

def sampleRef : KataRef := ⟨"n", kindConfigMap, "a", "k", "k.service"⟩

def sampleRefText : String :=
  "\x7b\"key\":\"k\",\"kind\":\"ConfigMap\",\"name\":\"a\",\"namespace\":\"n\",\"restartService\":\"k.service\"\x7d"

def sampleNode (refText : String) : Machine.Node where
  labels := [(Machine.kataConfigLabel, Machine.kataConfigLabelEnabled)]
  annotations := [( Machine.kataConfigRefAnnotation, refText)]
  unschedulable := false
  taints := []
  ready := true

def sampleHost : World where
  nodes _ := some (sampleNode sampleRefText)
  configMaps _ _ := some ⟨some [("k", "v")]⟩
  secrets _ _ := none
  files _ := none
  resolve p := p
  pid := 7
  loaded := none

abbrev sampleAgent : System Call Result World Reply (Except AgentError Unit) :=
  agentSystem Sha256.sha256 sampleCli

def tickFor (n : Nat) : List (Event World Reply) := .start :: List.replicate n (.next .ok)

end Sample

end FiveSpot.Kata
