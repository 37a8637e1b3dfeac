import FiveSpot.Data.JsonText
import FiveSpot.Data.Utf8
import FiveSpot.Machine.Cluster

/-!
# The surroundings of the kata agent

The agent's own Node and the source objects in the workload cluster, the file system of the host, and
the service that loads the drop-in. Every call may fail, and a write that fails may have taken effect.
-/

namespace FiveSpot.Kata

set_option autoImplicit false

open Effects Utf8

abbrev Path := List String

namespace Path

def ofString (s : String) : Path := (Text.split '/' s).filter fun seg => seg != "" && seg != "."

def parent (p : Path) : Option Path := if p = [] then none else some p.dropLast

def fileName (p : Path) : Option String := p.getLast?

end Path

/-- `io::Error`: only the kind `NotFound` is ever told apart. -/
inductive IoError where
  | notFound
  | permissionDenied (text : String)
  | other (text : String)
  deriving DecidableEq

inductive ExitStatus where
  | code (n : Nat)
  | signal (n : Nat)
  deriving DecidableEq

def ExitStatus.success : ExitStatus → Bool
  | .code n => n == 0
  | .signal _ => false

def ExitStatus.text : ExitStatus → String
  | .code n => "exit status: " ++ toString n
  | .signal n => "signal: " ++ toString n

structure ConfigMap where
  data : Option Machine.StringMap

structure Secret where
  data : Option (List (String × Bytes))

inductive Call where
  | getNode (name : String)
  | patchNode (name : String) (patch : Machine.NodePatch)
  | getConfigMap (ns name : String)
  | getSecret (ns name : String)
  | createDirAll (path : Path)
  | canonicalize (path : Path)
  | readFile (path : Path)
  | writeFile (path : Path) (content : Bytes)
  | setPermissions (path : Path) (mode : Nat)
  | rename (source target : Path)
  | removeFile (path : Path)
  | processId
  | command (argv : List String)

@[reducible] def Result : Call → Type
  | .getNode _ => Except KubeError Machine.Node
  | .patchNode _ _ => Except KubeError Unit
  | .getConfigMap _ _ => Except KubeError (Option ConfigMap)
  | .getSecret _ _ => Except KubeError (Option Secret)
  | .canonicalize _ => Except IoError Path
  | .readFile _ => Except IoError Bytes
  | .processId => Nat
  | .command _ => Except IoError ExitStatus
  | _ => Except IoError Unit

/-- How a call goes. A failed file operation never claims that the file does not exist. -/
inductive Reply where
  | ok
  | kube (e : KubeError) (applied : Bool)
  | io (text : String) (applied : Bool)
  | exit (status : ExitStatus)
  deriving DecidableEq

def Reply.answer : Reply → Answer
  | .kube e applied => .fail e applied
  | _ => .ok

def Reply.read {α : Type} (c : Reply) (r : Except IoError α) : Except IoError α :=
  match c with
  | .io text _ => .error (.other text)
  | _ => r

def Reply.write {World : Type} (c : Reply) (w : World) (after : Except IoError World) :
    Except IoError Unit × World :=
  match c, after with
  | .io text true, .ok w' => (.error (.other text), w')
  | .io text _, _ => (.error (.other text), w)
  | _, .ok w' => (.ok (), w')
  | _, .error e => (.error e, w)

/-- The configuration of the agent that a tick reads. -/
structure Args where
  nodeName : String
  hostRoot : Path

/-- The agent as it is started, with the JSON library that it is built with. -/
structure Agent extends Args where
  json : Json.Reader

def kataConfigDestBase : String := "/etc/k0s/"
def kataConfigDestPath : String := "/etc/k0s/containerd.d/kata.toml"

def Agent.destParent (cli : Agent) : Path := cli.hostRoot ++ ["etc", "k0s", "containerd.d"]

structure World where
  nodes : String → Option Machine.Node
  configMaps : String → String → Option ConfigMap
  secrets : String → String → Option Secret
  /-- The regular files of the host. -/
  files : Path → Option Bytes
  /-- Where a directory is once its symbolic links are followed. -/
  resolve : Path → Path
  pid : Nat
  /-- The drop-in as it was when the service was last started. -/
  loaded : Option Bytes

namespace World

variable (w : World)

def hostFile (cli : Agent) : Path := w.resolve cli.destParent ++ ["kata.toml"]

def patchNode (name : String) (p : Machine.NodePatch) : Except KubeError World :=
  match w.nodes name with
  | none => notFound
  | some n => .ok { w with nodes := Function.update w.nodes name (some (p.apply n)) }

def setFile (path : Path) (content : Option Bytes) : World :=
  { w with files := Function.update w.files path content }

def rename (source target : Path) : Except IoError World :=
  match w.files source with
  | none => .error .notFound
  | some content => .ok ((w.setFile source none).setFile target (some content))

def removeFile (path : Path) : Except IoError World :=
  match w.files path with
  | none => .error .notFound
  | some _ => .ok (w.setFile path none)

def reload (cli : Agent) : World := { w with loaded := w.files (w.hostFile cli) }

def exec (cli : Agent) (r : Call) (c : Reply) : Result r × World :=
  match r with
  | .getNode name =>
      (readAnswer c.answer (match w.nodes name with
        | some n => .ok n
        | none => notFound), w)
  | .patchNode name p => writeAnswer w c.answer (w.patchNode name p)
  | .getConfigMap ns name => (readAnswer c.answer (.ok (w.configMaps ns name)), w)
  | .getSecret ns name => (readAnswer c.answer (.ok (w.secrets ns name)), w)
  | .createDirAll _ => c.write w (.ok w)
  | .canonicalize path => (c.read (.ok (w.resolve path)), w)
  | .readFile path =>
      (c.read (match w.files path with
        | some content => .ok content
        | none => .error .notFound), w)
  | .writeFile path content => c.write w (.ok (w.setFile path (some content)))
  | .setPermissions _ _ => c.write w (.ok w)
  | .rename source target => c.write w (w.rename source target)
  | .removeFile path => c.write w (w.removeFile path)
  | .processId => (w.pid, w)
  | .command _ =>
      match c with
      | .io text _ => (.error (.other text), w)
      | .exit status => (.ok status, if status.success then w.reload cli else w)
      | _ => (.ok (.code 0), w.reload cli)

end World

end FiveSpot.Kata
