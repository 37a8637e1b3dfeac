import FiveSpot.Effects.Invariant
import FiveSpot.Kata.Agent

/-!
# What a tick may do

The calls of one tick, judged against the answers it has had, and the ways a tick ends. What the tick
knows of the files is read off that history.
-/

namespace FiveSpot.Kata

set_option autoImplicit false

open Effects Effects.Prog Utf8

abbrev Log := History Call Result

def Call.changesFiles : Call → Bool
  | .writeFile _ _ => true
  | .rename _ _ => true
  | .removeFile _ => true
  | _ => false

/-- The call reaches out to others: it changes the Node or restarts the service. -/
def Call.announces : Call → Bool
  | .patchNode _ _ => true
  | .command _ => true
  | _ => false

/-- The call changes nothing, and is not the read of the Node that starts a tick. -/
def Call.looks : Call → Bool
  | .getConfigMap _ _ => true
  | .getSecret _ _ => true
  | .createDirAll _ => true
  | .canonicalize _ => true
  | .readFile _ => true
  | .setPermissions _ _ => true
  | .processId => true
  | _ => false

theorem Call.announces_of_looks {r : Call} (h : r.looks = true) : r.announces = false := by
  cases r <;> first | rfl | cases h

theorem Call.changesFiles_of_looks {r : Call} (h : r.looks = true) : r.changesFiles = false := by
  cases r <;> first | rfl | cases h

def Calm (h : Log) : Prop := ∀ x ∈ h, x.1.announces = false

def Unwritten (h : Log) : Prop := ∀ x ∈ h, x.1.changesFiles = false

section Knowledge

def learned (known : Path → Option (Option Bytes)) :
    (r : Call) → Result r → Path → Option (Option Bytes)
  | .readFile p, .ok content => Function.update known p (some (some content))
  | .readFile p, .error .notFound => Function.update known p (some none)
  | .writeFile p content, .ok () => Function.update known p (some (some content))
  | .writeFile p _, .error _ => Function.update known p none
  | .removeFile p, .ok () => Function.update known p (some none)
  | .removeFile p, .error .notFound => Function.update known p (some none)
  | .removeFile p, .error _ => Function.update known p none
  | .rename p q, .ok () => Function.update (Function.update known p (some none)) q (known p)
  | .rename p q, .error _ => Function.update (Function.update known p none) q none
  | _, _ => known

/-- What the answers show a file to hold, as long as nobody else touches it. -/
def known : Log → Path → Option (Option Bytes)
  | [] => fun _ => none
  | ⟨r, a⟩ :: h => learned (known h) r a

theorem learned_of_looks {r : Call} {a : Result r} {k : Path → Option (Option Bytes)} {p : Path}
    (hlooks : r.looks = true) (hread : ∀ q, r ≠ .readFile q) : learned k r a p = k p := by
  cases r with
  | readFile q => exact absurd rfl (hread q)
  | writeFile _ _ | rename _ _ | removeFile _ | patchNode _ _ | command _ => cases hlooks
  | _ => rfl

end Knowledge

section Judgement

variable (sha256 : Bytes → Bytes) (cli : Agent)

def refText (node : Machine.Node) : Option String :=
  node.annotations.lookup Machine.kataConfigRefAnnotation

def appliedHash (node : Machine.Node) : Option String :=
  node.annotations.lookup kataConfigAppliedAnnotation

/-- The hash that stands for a content or for its absence. -/
def mark (content : Option Bytes) : String := content.elim absentHashMarker (sha256Hex sha256)

/-- Two contents with one digest are the same. -/
def TellsApart (content content' : Option Bytes) : Prop :=
  ∀ x ∈ content, ∀ y ∈ content', sha256 x = sha256 y → x = y

def Saw (h : Log) (node : Machine.Node) : Prop := ⟨.getNode cli.nodeName, .ok node⟩ ∈ h

/-- The destination is the drop-in below the directory the tick was shown. -/
def Placed (h : Log) (dest : Path) : Prop :=
  ∃ dir, ⟨.canonicalize cli.destParent, .ok dir⟩ ∈ h ∧ dest = dir ++ ["kata.toml"]

inductive Fetched (h : Log) (kref : KataRef) : Option String → Prop where
  | configMap {object : Option ConfigMap} : kref.kind = kindConfigMap →
      ⟨.getConfigMap kref.ns kref.name, .ok object⟩ ∈ h →
      Fetched h kref (configMapText object kref.key)
  | secret {object : Option Secret} : kref.kind = kindSecret →
      ⟨.getSecret kref.ns kref.name, .ok object⟩ ∈ h →
      Fetched h kref ((secretBytes object kref.key).map fromUtf8Lossy)

structure Sought (h : Log) (node : Machine.Node) (kref : KataRef) (content : Option Bytes) :
    Prop where
  saw : Saw cli h node
  ref : ∃ raw, refText node = some raw ∧ parseKataRef cli.json raw = .ok kref
  fetched : ∃ text, Fetched h kref text ∧ content = text.map asBytes

structure Unsought (h : Log) (node : Machine.Node) : Prop where
  saw : Saw cli h node
  ref : refText node = none

inductive Wanted (h : Log) : Option Bytes → Prop where
  | nothing {node : Machine.Node} : Unsought cli h node → Wanted h none
  | content {node : Machine.Node} {kref : KataRef} {content : Option Bytes} :
      Sought cli h node kref content → Wanted h content

/-- The host file is known to hold this content, as far as the hash tells. -/
def Synced (h : Log) (content : Option Bytes) : Prop :=
  ∃ dest held, Placed cli h dest ∧ known h dest = some held ∧ mark sha256 held = mark sha256 content

def Stale (h : Log) : Prop :=
  ∃ dest held content, Placed cli h dest ∧ Wanted cli h content ∧ known h dest = some held ∧
    mark sha256 held ≠ mark sha256 content

/-- The destination and the temporary files next to it. -/
def Own (dest p : Path) : Prop := p = dest ∨ ∃ pid, p = tempPathFor (dest.parent.getD []) dest pid

def Call.within (dest : Path) : Call → Prop
  | .writeFile p _ => Own dest p
  | .rename p q => Own dest p ∧ Own dest q
  | .removeFile p => Own dest p
  | _ => True

/-- The file is in place and the service was not restarted for its content. -/
structure Due (h : Log) (node : Machine.Node) (kref : KataRef) (content : Option Bytes) : Prop where
  calm : Calm h
  sought : Sought cli h node kref content
  synced : Synced sha256 cli h content
  outdated : appliedHash node ≠ some (mark sha256 content)

def recordCall (content : Option Bytes) : Call :=
  .patchNode cli.nodeName (recordPatch (mark sha256 content))

def restartCall (kref : KataRef) : Call := .command (nsenterRestartArgv selfExe kref.restartService)

inductive Permitted : Log → Call → Prop where
  | getNode : Permitted [] (.getNode cli.nodeName)
  | look {h : Log} {r : Call} : Calm h → r.looks = true → Permitted h r
  | touch {h : Log} {r : Call} {dest : Path} : Calm h → r.changesFiles = true → Placed cli h dest →
      r.within dest → (Stale sha256 cli h ∨ ∃ x ∈ h, x.1.changesFiles = true) → Permitted h r
  | clear {h : Log} {node : Machine.Node} : Calm h → Unsought cli h node →
      Synced sha256 cli h none → Permitted h (.patchNode cli.nodeName clearPatch)
  | record {h : Log} {node : Machine.Node} {kref : KataRef} {content : Option Bytes} :
      Due sha256 cli h node kref content → Permitted h (recordCall sha256 cli content)
  | restart {h : Log} {node : Machine.Node} {kref : KataRef} {content : Option Bytes} :
      Due sha256 cli h node kref content →
      Permitted (⟨recordCall sha256 cli content, .ok ()⟩ :: h) (restartCall kref)

inductive Returned : Except AgentError Unit → Log → Prop where
  | failed {e : AgentError} {h : Log} : Calm h → Returned (.error e) h
  | tornDown {h : Log} {node : Machine.Node} : Calm h → Unsought cli h node →
      Synced sha256 cli h none →
      Returned (.ok ()) (⟨.patchNode cli.nodeName clearPatch, .ok ()⟩ :: h)
  | notTornDown {e : AgentError} {e' : KubeError} {h : Log} : Calm h →
      Returned (.error e) (⟨.patchNode cli.nodeName clearPatch, .error e'⟩ :: h)
  | upToDate {h : Log} {node : Machine.Node} {kref : KataRef} {content : Option Bytes} : Calm h →
      Sought cli h node kref content → Synced sha256 cli h content →
      appliedHash node = some (mark sha256 content) → Returned (.ok ()) h
  | notRecorded {e : AgentError} {e' : KubeError} {h : Log} {content : Option Bytes} : Calm h →
      Returned (.error e) (⟨recordCall sha256 cli content, .error e'⟩ :: h)
  | restarted {h : Log} {node : Machine.Node} {kref : KataRef} {content : Option Bytes}
      {status : ExitStatus} : Due sha256 cli h node kref content → status.success = true →
      Returned (.ok ())
        (⟨restartCall kref, .ok status⟩ :: ⟨recordCall sha256 cli content, .ok ()⟩ :: h)
  | notRestarted {e : AgentError} {h : Log} {node : Machine.Node} {kref : KataRef}
      {content : Option Bytes} {answer : Except IoError ExitStatus} :
      Due sha256 cli h node kref content → (∀ status, answer = .ok status → status.success = false) →
      Returned (.error e)
        (⟨restartCall kref, answer⟩ :: ⟨recordCall sha256 cli content, .ok ()⟩ :: h)

end Judgement

end FiveSpot.Kata
