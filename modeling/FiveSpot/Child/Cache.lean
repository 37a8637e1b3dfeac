import Mathlib.Data.List.AList
import FiveSpot.Common
import FiveSpot.Data.Utf8
import FiveSpot.Effects.Fallible
import FiveSpot.Effects.Pool

/-!
# Clients for child clusters

The cache of `reconcilers/child_client.rs` and the Node watchers of `reconcilers/child_watch.rs` that
follow it. Every locked section of the map and every hook is one call, so the calls of `resolve` and `evict`
from several reconciles interleave.
-/

namespace FiveSpot.Child

set_option autoImplicit false

open Effects Effects.Prog Utf8

structure CacheKey where
  ns : String
  secretName : String
  deriving DecidableEq

/-- A client and the kubeconfig it was built from; no two builds give the same one. -/
structure Client where
  serial : Nat
  source : String
  deriving DecidableEq

structure CachedEntry where
  client : Client
  resourceVersion : String
  lastUsed : Nat
  deriving DecidableEq

structure Secret where
  resourceVersion : Option String
  data : Option (List (String × Bytes))

def Secret.version (s : Secret) : String := s.resourceVersion.getD ""

def dataAt (data : Option (List (String × Bytes))) (key : String) : Option Bytes :=
  data.bind fun d => (d.find? fun entry => entry.1 == key).map Prod.snd

inductive ResolvedClient where
  | management
  | child (client : Client) (key : CacheKey) (resourceVersion : String)
  deriving DecidableEq

/-- The steps from a kubeconfig to a client that can fail. -/
inductive BuildStage where
  | parse
  | config
  | client

def BuildStage.reason : BuildStage → String
  | .parse => "YAML parse failed: "
  | .config => "kubeconfig is not usable to build a Config: "
  | .client => "could not build kube::Client: "

inductive Request where
  | getSecret (ns name : String)
  /-- The first locked section: a hit on this version, which counts as a use. -/
  | lookup (key : CacheKey) (resourceVersion : String)
  | buildClient (yaml : String)
  /-- The second locked section: whether an entry was replaced, and the key evicted for it. -/
  | insert (key : CacheKey) (client : Client) (resourceVersion : String)
  /-- The locked section of `evict`: whether there was an entry. -/
  | remove (key : CacheKey)
  | onChildEvicted (key : CacheKey)
  | onChildResolved (key : CacheKey) (client : Client)

def Response : Request → Type
  | .getSecret _ _ => Except KubeError Secret
  | .lookup _ _ => Option Client
  | .buildClient _ => Except (BuildStage × String) Client
  | .insert _ _ _ => Bool × Option CacheKey
  | .remove _ => Bool
  | .onChildEvicted _ => Unit
  | .onChildResolved _ _ => Unit

abbrev Resolve (α : Type) := ExceptT ReconcilerError (Prog Request Response) α

abbrev Log := History Request Response

/-- What `resolve` reads of a ScheduledMachine. -/
structure Subject where
  ns : Option String
  clusterName : String
  /-- The name and the data key of `spec.kubeconfigSecretRef`. -/
  kubeconfigSecretRef : Option (String × String)
  deriving DecidableEq

def defaultKubeconfigSecretKey : String := "value"

section Programs

def call (r : Request) : Resolve (Response r) := ask r

/-- A client from the kubeconfig under `key`. -/
def buildChild (ns secretName key : String) (secret : Secret) : Resolve Client := do
  match dataAt secret.data key with
  | none => throw (.kubeconfigSecretMissingKey ns secretName key)
  | some raw =>
      match fromUtf8 raw with
      | .error e =>
          throw (.kubeconfigInvalid ns secretName ("kubeconfig data is not valid UTF-8: " ++ e))
      | .ok yaml =>
          match ← call (.buildClient yaml) with
          | .error (stage, e) => throw (.kubeconfigInvalid ns secretName (stage.reason ++ e))
          | .ok child => return child

/-- What follows the second locked section: the hooks, after the lock is released. -/
def fireHooks (cacheKey : CacheKey) (child : Client) (replacedSameKey : Bool)
    (evictedOther : Option CacheKey) : Resolve Unit := do
  match evictedOther with
  | some ev => call (.onChildEvicted ev)
  | none => pure ()
  if replacedSameKey then call (.onChildEvicted cacheKey)
  call (.onChildResolved cacheKey child)

def buildOrGetCached (ns secretName key : String) (explicit : Bool) : Resolve ResolvedClient := do
  match ← call (.getSecret ns secretName) with
  | .error e =>
      if e.isNotFound then
        if explicit then
          throw (.childClusterUnreachable ns secretName ("explicit kubeconfigSecretRef points at Secret " ++
            ns ++ "/" ++ secretName ++ " which does not exist"))
        else throw (.notFound (ns ++ "/" ++ secretName))
      else if explicit then
        throw (.childClusterUnreachable ns secretName ("GET Secret failed: " ++ e.text))
      else throw (.kubeError e)
  | .ok secret =>
      match ← call (.lookup ⟨ns, secretName⟩ secret.version) with
      | some client => return .child client ⟨ns, secretName⟩ secret.version
      | none =>
          let child ← buildChild ns secretName key secret
          let (replacedSameKey, evictedOther) ← call (.insert ⟨ns, secretName⟩ child secret.version)
          fireHooks ⟨ns, secretName⟩ child replacedSameKey evictedOther
          return .child child ⟨ns, secretName⟩ secret.version

def resolve (sm : Subject) : Resolve ResolvedClient :=
  match sm.ns with
  | none =>
      throw (.invalidConfig "ScheduledMachine must be namespaced for kubeconfig resolution")
  | some ns =>
      match sm.kubeconfigSecretRef with
      | some (name, key) => buildOrGetCached ns name key true
      | none => do
          let outcome ← attempt
            (buildOrGetCached ns (sm.clusterName ++ "-kubeconfig") defaultKubeconfigSecretKey false)
          match outcome with
          | .ok r => return r
          | .error (.notFound _) => return .management
          | .error e => throw e

def evict (key : CacheKey) : Prog Request Response Unit := do
  let removed : Bool ← perform (Request.remove key)
  if removed then perform (Request.onChildEvicted key) else return ()

end Programs

inductive Call where
  | resolve (sm : Subject)
  | evict (key : CacheKey)
  deriving DecidableEq

inductive Outcome where
  | resolved (result : Except ReconcilerError ResolvedClient)
  | evicted
  deriving DecidableEq

def Call.program : Call → Prog Request Response Outcome
  | .resolve sm => do return .resolved (← (Child.resolve sm).run)
  | .evict key => do
      Child.evict key
      return .evicted

section World

abbrev Cache := AList fun _ : CacheKey => CachedEntry

structure World where
  secrets : String → String → Option Secret
  now : Nat
  cache : Cache
  /-- The client that the Node watcher of a key runs on. -/
  watchers : CacheKey → Option Client
  /-- The serial number of the next client. -/
  nextSerial : Nat

structure Outside where
  secrets : String → String → Option Secret
  now : Nat

/-- How a call comes out where the world leaves it open. -/
inductive Choice where
  | ok
  | fail (e : KubeError)
  | unusable (stage : BuildStage) (e : String)
  /-- Which of several least recently used entries comes first in the map. -/
  | first (n : Nat)

def childClientCacheCap : Nat := 256

def leastUsed (cache : Cache) : List CacheKey :=
  (cache.entries.filter fun e => cache.entries.all fun e' => e.2.lastUsed ≤ e'.2.lastUsed).map Sigma.fst

def lruKey (cache : Cache) (n : Nat) : Option CacheKey := (leastUsed cache)[n % (leastUsed cache).length]?

/-- The entry that makes room for `key`. -/
def victim (cache : Cache) (key : CacheKey) (n : Nat) : Option CacheKey :=
  if childClientCacheCap ≤ cache.keys.length && (cache.lookup key).isNone then lruKey cache n else none

def trimmed (cache : Cache) : Option CacheKey → Cache
  | some k => cache.erase k
  | none => cache

def Choice.tie : Choice → Nat
  | .first n => n
  | _ => 0

namespace World

variable (w : World)

def getSecret (ns name : String) : Choice → Except KubeError Secret
  | .fail e => .error e
  | _ => (w.secrets ns name).elim notFound .ok

def lookup (key : CacheKey) (resourceVersion : String) : Option Client × World :=
  match w.cache.lookup key with
  | none => (none, w)
  | some e =>
      if e.resourceVersion = resourceVersion then
        (some e.client, { w with cache := w.cache.insert key { e with lastUsed := w.now } })
      else (none, w)

def buildClient (yaml : String) : Choice → Except (BuildStage × String) Client × World
  | .unusable stage e => (.error (stage, e), w)
  | _ => (.ok ⟨w.nextSerial, yaml⟩, { w with nextSerial := w.nextSerial + 1 })

def insert (key : CacheKey) (client : Client) (resourceVersion : String) (c : Choice) :
    (Bool × Option CacheKey) × World :=
  let evictedOther := victim w.cache key c.tie
  let cache := trimmed w.cache evictedOther
  (((cache.lookup key).isSome, evictedOther),
    { w with cache := cache.insert key ⟨client, resourceVersion, w.now⟩ })

def exec (r : Request) (c : Choice) : Response r × World :=
  match r with
  | .getSecret ns name => (w.getSecret ns name c, w)
  | .lookup key resourceVersion => w.lookup key resourceVersion
  | .buildClient yaml => w.buildClient yaml c
  | .insert key client resourceVersion => w.insert key client resourceVersion c
  | .remove key => ((w.cache.lookup key).isSome, { w with cache := w.cache.erase key })
  | .onChildEvicted key => ((), { w with watchers := Function.update w.watchers key none })
  | .onChildResolved key client =>
      ((), { w with watchers := Function.update w.watchers key (some client) })

end World

def childPool : Pool Request Response World Choice Outside Call Outcome where
  exec := World.exec
  program := Call.program
  adjust := fun w o => { w with secrets := o.secrets, now := o.now }

def World.fresh (secrets : String → String → Option Secret) : World where
  secrets := secrets
  now := 0
  cache := ∅
  watchers := fun _ => none
  nextSerial := 0

end World

end FiveSpot.Child
