import FiveSpot.Child.Cache

/-!
# What a call on the cache does

The calls of `resolve` and `evict`, each after which others, and how they end. A change of the map leaves
hooks to be called; the task that made it calls them in order and returns when none is left.
-/

namespace FiveSpot.Child

set_option autoImplicit false

open Effects Effects.Prog Utf8

inductive Hook where
  | evicted (key : CacheKey)
  | resolved (key : CacheKey) (client : Client)
  deriving DecidableEq

def Hook.request : Hook → Request
  | .evicted key => .onChildEvicted key
  | .resolved key client => .onChildResolved key client

def Hook.key : Hook → CacheKey
  | .evicted key => key
  | .resolved key _ => key

def insertHooks (key : CacheKey) (client : Client) (x : Bool × Option CacheKey) : List Hook :=
  x.2.toList.map .evicted ++ (if x.1 then [.evicted key] else []) ++ [.resolved key client]

def removeHooks (key : CacheKey) (removed : Bool) : List Hook := if removed then [.evicted key] else []

/-- The hooks that the latest change of the map calls for and that are still to be called. -/
def owed : Log → List Hook
  | [] => []
  | ⟨.insert key client _, x⟩ :: _ => insertHooks key client x
  | ⟨.remove key, removed⟩ :: _ => removeHooks key removed
  | ⟨.onChildEvicted _, _⟩ :: h => (owed h).tail
  | ⟨.onChildResolved _ _, _⟩ :: h => (owed h).tail
  | _ :: _ => []

/-- The Secret and the key in it that `resolve` goes for. -/
structure Target where
  ns : String
  secretName : String
  key : String
  deriving DecidableEq

def Target.cacheKey (t : Target) : CacheKey := ⟨t.ns, t.secretName⟩

def Subject.target (sm : Subject) : Option Target :=
  sm.ns.map fun ns =>
    match sm.kubeconfigSecretRef with
    | some (name, key) => ⟨ns, name, key⟩
    | none => ⟨ns, sm.clusterName ++ "-kubeconfig", defaultKubeconfigSecretKey⟩

section Conduct

variable (t : Target) (secret : Secret)

def got : Log := [⟨.getSecret t.ns t.secretName, .ok secret⟩]

def missed : Log := ⟨.lookup t.cacheKey secret.version, none⟩ :: got t secret

/-- The first call was a reading of the Secret with this answer. -/
def OwnRead (h : Log) : Prop := h.getLast? = some ⟨.getSecret t.ns t.secretName, .ok secret⟩

end Conduct

inductive Permitted : Call → Log → Request → Prop where
  | get {sm : Subject} {t : Target} : sm.target = some t →
      Permitted (.resolve sm) [] (.getSecret t.ns t.secretName)
  | lookup {sm : Subject} {t : Target} {secret : Secret} : sm.target = some t →
      Permitted (.resolve sm) (got t secret) (.lookup t.cacheKey secret.version)
  | build {sm : Subject} {t : Target} {secret : Secret} {yaml : String} : sm.target = some t →
      dataAt secret.data t.key = some (asBytes yaml) →
      Permitted (.resolve sm) (missed t secret) (.buildClient yaml)
  | insert {sm : Subject} {t : Target} {secret : Secret} {yaml : String} {client : Client} :
      sm.target = some t → dataAt secret.data t.key = some (asBytes yaml) →
      Permitted (.resolve sm) (⟨.buildClient yaml, .ok client⟩ :: missed t secret)
        (.insert t.cacheKey client secret.version)
  | remove {key : CacheKey} : Permitted (.evict key) [] (.remove key)
  | hook {call : Call} {h : Log} {hook : Hook} {hooks : List Hook} : owed h = hook :: hooks →
      Permitted call h hook.request

inductive Returned : Call → Outcome → Log → Prop where
  | evicted {key : CacheKey} {h : Log} : owed h = [] → Returned (.evict key) .evicted h
  | unnamed {sm : Subject} {e : ReconcilerError} : sm.target = none →
      Returned (.resolve sm) (.resolved (.error e)) []
  | unread {sm : Subject} {t : Target} {e : KubeError} {result : Except ReconcilerError ResolvedClient} :
      sm.target = some t → (∀ client key rv, result ≠ .ok (.child client key rv)) →
      Returned (.resolve sm) (.resolved result) [⟨.getSecret t.ns t.secretName, .error e⟩]
  | hit {sm : Subject} {t : Target} {secret : Secret} {client : Client} : sm.target = some t →
      Returned (.resolve sm) (.resolved (.ok (.child client t.cacheKey secret.version)))
        (⟨.lookup t.cacheKey secret.version, some client⟩ :: got t secret)
  | missing {sm : Subject} {t : Target} {secret : Secret} : sm.target = some t →
      dataAt secret.data t.key = none →
      Returned (.resolve sm)
        (.resolved (.error (.kubeconfigSecretMissingKey t.ns t.secretName t.key))) (missed t secret)
  | unusable {sm : Subject} {t : Target} {secret : Secret} {raw : Bytes} {reason : String} {h : Log} :
      sm.target = some t → dataAt secret.data t.key = some raw → OwnRead t secret h → owed h = [] →
      Returned (.resolve sm) (.resolved (.error (.kubeconfigInvalid t.ns t.secretName reason))) h
  | built {sm : Subject} {t : Target} {secret : Secret} {yaml : String} {client : Client} {h : Log} :
      sm.target = some t → dataAt secret.data t.key = some (asBytes yaml) → OwnRead t secret h →
      ⟨.buildClient yaml, .ok client⟩ ∈ h → owed h = [] →
      Returned (.resolve sm) (.resolved (.ok (.child client t.cacheKey secret.version))) h

section Keeps

variable {c : Call} {h : Log} {β : Type} {Q : β → Log → Prop} {E : ReconcilerError → Log → Prop}

theorem keeps_onChildEvicted {key : CacheKey} {hooks : List Hook} (howed : owed h = .evicted key :: hooks)
    {f : Unit → Resolve β}
    (hf : ∀ h', owed h' = hooks → h <:+ h' → Keeps (Permitted c) (f ()) h' Q E) :
    Keeps (Permitted c) (call (.onChildEvicted key) >>= f) h Q E := by
  have hpermitted : Permitted c h (.onChildEvicted key) := .hook howed
  refine keeps_ask_bind hpermitted fun _ => hf _ ?_ (List.suffix_cons _ h)
  simp [owed, howed]

theorem keeps_fireHooks {key : CacheKey} {client : Client} {replaced : Bool} {other : Option CacheKey}
    (howed : owed h = insertHooks key client (replaced, other)) :
    Keeps (Permitted c) (fireHooks key client replaced other) h
      (fun _ h' => owed h' = [] ∧ h <:+ h') E := by
  have hlast : ∀ h', owed h' = [.resolved key client] → h <:+ h' →
      Keeps (Permitted c) (call (.onChildResolved key client)) h'
        (fun _ h'' => owed h'' = [] ∧ h <:+ h'') E := by
    intro h' howed' hsuffix
    have hpermitted : Permitted c h' (.onChildResolved key client) := .hook howed'
    refine (keeps_ask hpermitted).weaken (fun x h'' hh => ?_) fun _ _ hfalse => hfalse.elim
    subst hh
    exact ⟨by simp [owed, howed'], hsuffix.trans (List.suffix_cons _ h')⟩
  have hsame : ∀ h', owed h' = insertHooks key client (replaced, none) → h <:+ h' →
      Keeps (Permitted c) (fireHooks key client replaced none) h'
        (fun _ h'' => owed h'' = [] ∧ h <:+ h'') E := by
    intro h' howed' hsuffix
    cases replaced with
    | false => exact hlast h' howed' hsuffix
    | true =>
      exact keeps_onChildEvicted howed' fun h'' howed'' hsuffix' => hlast h'' howed'' (hsuffix.trans hsuffix')
  cases other with
  | none => exact hsame h howed (List.suffix_refl h)
  | some ev => exact keeps_onChildEvicted howed fun h' howed' hsuffix => hsame h' howed' hsuffix

end Keeps

section Resolve

variable {sm : Subject} {t : Target} {secret : Secret}

/-- How `build_or_get_cached` may fail: `resolve` goes on from a missing Secret. -/
def Failed (sm : Subject) (e : ReconcilerError) (h : Log) : Prop :=
  Returned (.resolve sm) (.resolved (.error e)) h ∧
    ∀ text, e = .notFound text → Returned (.resolve sm) (.resolved (.ok .management)) h

theorem failed_of_returned {e : ReconcilerError} {h : Log}
    (hreturned : Returned (.resolve sm) (.resolved (.error e)) h) (he : ∀ text, e ≠ .notFound text) :
    Failed sm e h :=
  ⟨hreturned, fun text heq => (he text heq).elim⟩

theorem ownRead_of_suffix {h h' : Log} (hread : OwnRead t secret h) (hsuffix : h <:+ h') :
    OwnRead t secret h' := by
  obtain ⟨l, rfl⟩ := hsuffix
  unfold OwnRead at hread ⊢
  rw [List.getLast?_append, hread]
  rfl

theorem keeps_buildChild (ht : sm.target = some t) :
    Keeps (Permitted (.resolve sm)) (buildChild t.ns t.secretName t.key secret) (missed t secret)
      (fun client h' => ∃ yaml, dataAt secret.data t.key = some (asBytes yaml) ∧
        h' = ⟨.buildClient yaml, .ok client⟩ :: missed t secret)
      (Failed sm) := by
  unfold buildChild
  split
  case h_1 hdata => exact keeps_throw (failed_of_returned (.missing ht hdata) fun _ h => by cases h)
  case h_2 raw hdata =>
    split
    · exact keeps_throw (failed_of_returned (.unusable ht hdata rfl rfl) fun _ h => by cases h)
    · rename_i yaml hyaml
      have hbytes : dataAt secret.data t.key = some (asBytes yaml) := by
        rw [hdata, fromUtf8_eq_ok_iff.mp hyaml]
      refine keeps_ask_bind (.build ht hbytes) fun x => ?_
      split
      · exact keeps_throw (failed_of_returned (.unusable ht hdata rfl rfl) fun _ h => by cases h)
      · exact keeps_pure ⟨yaml, hbytes, rfl⟩

theorem keeps_buildOrGetCached (ht : sm.target = some t) (explicit : Bool) :
    Keeps (Permitted (.resolve sm)) (buildOrGetCached t.ns t.secretName t.key explicit) []
      (fun r h => Returned (.resolve sm) (.resolved (.ok r)) h) (Failed sm) := by
  refine keeps_ask_bind (.get ht) fun x => ?_
  split
  case h_1 e =>
    have hunread : ∀ e', Failed sm e' [⟨.getSecret t.ns t.secretName, .error e⟩] := by
      refine fun e' => ⟨.unread ht ?_, fun _ _ => .unread ht ?_⟩
      · rintro _ _ _ ⟨⟩
      · rintro _ _ _ ⟨⟩
    split
    · split <;> exact keeps_throw (hunread _)
    · split <;> exact keeps_throw (hunread _)
  case h_2 secret =>
    refine keeps_ask_bind (.lookup ht) fun y => ?_
    split
    · exact keeps_pure (.hit ht)
    · refine (keeps_buildChild ht).bind (fun client h' hbuilt => ?_) fun _ _ he => he
      obtain ⟨yaml, hdata, rfl⟩ := hbuilt
      refine keeps_ask_bind (.insert ht hdata) fun z => ?_
      obtain ⟨replaced, other⟩ := z
      refine (keeps_fireHooks rfl).bind (fun _ h' hfired => keeps_pure ?_) fun _ _ he => he
      have hread : OwnRead t secret h' := ownRead_of_suffix (h := _ :: _ :: missed t secret) rfl hfired.2
      refine .built ht hdata hread (hfired.2.subset ?_) hfired.1
      exact List.mem_cons_of_mem _ List.mem_cons_self

theorem keeps_resolve (sm : Subject) :
    Keeps (Permitted (.resolve sm)) (resolve sm) []
      (fun r h => Returned (.resolve sm) (.resolved (.ok r)) h)
      fun e h => Returned (.resolve sm) (.resolved (.error e)) h := by
  obtain ⟨ns, clusterName, reference⟩ := sm
  cases ns with
  | none => exact keeps_throw (.unnamed rfl)
  | some ns =>
    cases reference with
    | some entry =>
      obtain ⟨name, key⟩ := entry
      exact (keeps_buildOrGetCached (t := ⟨ns, name, key⟩) rfl true).weaken (fun _ _ hr => hr)
        fun _ _ he => he.1
    | none =>
      refine (keeps_buildOrGetCached
        (t := ⟨ns, clusterName ++ "-kubeconfig", defaultKubeconfigSecretKey⟩) rfl false).attempt
        (fun _ _ hr => keeps_pure hr) fun e h' he => ?_
      split
      · rename_i heq
        cases heq
      · rename_i text heq
        cases heq
        exact keeps_pure (he.2 text rfl)
      · rename_i heq
        cases heq
        exact keeps_throw he.1

end Resolve

def childContract : Contract Request Response Call Outcome where
  answers _ _ _ := True
  permits := Permitted
  returns := Returned

theorem childContract_binds (c : Call) : childContract.Binds c [] (childPool.program c) := by
  cases c with
  | resolve sm =>
    refine meets_bind.mpr ((keeps_resolve sm).meets.mono fun r h hr => ?_)
    cases r <;> exact hr
  | evict key =>
    refine ⟨.remove, fun removed _ => ?_⟩
    cases removed with
    | false => exact Returned.evicted rfl
    | true =>
      have hpermitted : Permitted (.evict key) [⟨.remove key, true⟩] (Hook.evicted key).request := .hook rfl
      exact ⟨hpermitted, fun _ _ => Returned.evicted rfl⟩

end FiveSpot.Child
