import FiveSpot.Kata.Host
import FiveSpot.Kata.Reference

/-!
# The kata agent

One tick of `kata_config_agent.rs`: read the reference from the Node, fetch the source, bring the host
file in line with it, and restart the service when the content is not the one restarted for before.
-/

namespace FiveSpot.Kata

set_option autoImplicit false

open Effects Effects.Prog Utf8

inductive AgentError where
  | kube (e : KubeError)
  | io (e : IoError)
  | reference (e : KataRefError)
  | message (text : String)
  | context (text : String) (cause : AgentError)
  deriving DecidableEq

abbrev Tick (α : Type) := ExceptT AgentError (Prog Call Result) α

def call (r : Call) : Tick (Result r) := ask r

def orKube {α : Type} (context : String) : Except KubeError α → Tick α
  | .ok a => pure a
  | .error e => throw (.context context (.kube e))

def orIo {α : Type} : Except IoError α → Tick α
  | .ok a => pure a
  | .error e => throw (.io e)

section Content

/-- `format!("{byte:02x}")`. -/
def hexByte (b : UInt8) : List Char := [Nat.digitChar (b.toNat / 16), Nat.digitChar (b.toNat % 16)]

variable (sha256 : Bytes → Bytes)

def sha256Hex (bytes : Bytes) : String := .ofList ((sha256 bytes).flatMap hexByte)

def fileSha256 (path : Path) : Tick (Option String) := do
  match ← call (.readFile path) with
  | .ok bytes => return some (sha256Hex sha256 bytes)
  | .error .notFound => return none
  | .error e => throw (.io e)

inductive SyncAction where
  | write
  | delete
  | noOp
  deriving DecidableEq

def decideAction (source : Option Bytes) (destHash : Option String) : SyncAction :=
  match source with
  | some bytes => if destHash = some (sha256Hex sha256 bytes) then .noOp else .write
  | none => if destHash.isSome then .delete else .noOp

def destFileMode : Nat := 0o644
def tempSuffix : String := "5spot-tmp"

def tempPathFor (parent dest : Path) (pid : Nat) : Path :=
  parent ++ [dest.fileName.getD "kata-config" ++ "." ++ tempSuffix ++ "." ++ toString pid]

def atomicWrite (dest : Path) (content : Bytes) : Tick Unit := do
  let parent := dest.parent.getD []
  orIo (← call (.createDirAll parent))
  let tmp := tempPathFor parent dest (← call .processId)
  let _ ← call (.removeFile tmp)
  orIo (← call (.writeFile tmp content))
  orIo (← call (.setPermissions tmp destFileMode))
  match ← call (.rename tmp dest) with
  | .ok () => return ()
  | .error e =>
      let _ ← call (.removeFile tmp)
      throw (.io e)

def removeIfPresent (dest : Path) : Tick Bool := do
  match ← call (.removeFile dest) with
  | .ok () => return true
  | .error .notFound => return false
  | .error e => throw (.io e)

inductive SyncOutcome where
  | wrote (hash : String)
  | deleted
  | unchanged (hash : Option String)
  deriving DecidableEq

def syncContent (content : Option Bytes) (dest : Path) : Tick SyncOutcome := do
  let destHash ← fileSha256 sha256 dest
  match decideAction sha256 content destHash with
  | .write =>
      match content with
      | some bytes => do
          atomicWrite dest bytes
          return .wrote (sha256Hex sha256 bytes)
      -- `expect`: a write is only decided for content that is there
      | none => throw (.message "Write action implies the content is present")
  | .delete => do
      let _ ← removeIfPresent dest
      return .deleted
  | .noOp => return .unchanged destHash

end Content

section Confinement

def destFileSuffix : String := ".toml"

def refusal (destPath why : String) : AgentError :=
  .io (.permissionDenied ("refusing destPath " ++ Text.debug destPath ++ ": " ++ why ++
    " (ADR 0005 confines kata writes to " ++ kataConfigDestBase ++ "*.toml)"))

def trimStart (s : String) : String := .ofList (s.toList.dropWhile (· == '/'))

def confineDestPath (hostRoot : Path) (destPath : String) : Tick Path := do
  if !Text.startsWith kataConfigDestBase destPath then
    throw (refusal destPath "outside the allowed base")
  else if !Text.endsWith destFileSuffix destPath then
    throw (refusal destPath "not a .toml drop-in")
  else if ((Text.split '/' destPath).drop 1).any fun seg => seg.isEmpty || seg == "." || seg == ".." then
    throw (refusal destPath "non-canonical path segment")
  else
    let full := hostRoot ++ Path.ofString (trimStart destPath)
    match full.parent, full.fileName with
    | none, _ => throw (refusal destPath "no parent directory")
    | some _, none => throw (refusal destPath "no file name")
    | some parent, some fileName =>
        let base := hostRoot ++ Path.ofString (trimStart kataConfigDestBase)
        orIo (← call (.createDirAll parent))
        orIo (← call (.createDirAll base))
        let canonParent ← orIo (← call (.canonicalize parent))
        let canonBase ← orIo (← call (.canonicalize base))
        if !canonBase.isPrefixOf canonParent then
          throw (refusal destPath "resolves outside the allowed base (symlink?)")
        else return canonParent ++ [fileName]

end Confinement

section Restart

def absentHashMarker : String := "absent"

def intendedHashFor : SyncOutcome → String
  | .wrote hash => hash
  | .unchanged (some hash) => hash
  | .deleted => absentHashMarker
  | .unchanged none => absentHashMarker

def needsRestart (prevAppliedHash : Option String) (intendedHash : String) : Bool :=
  prevAppliedHash != some intendedHash

def nsenterRestartArgv (selfExe service : String) : List String :=
  [selfExe, "nsenter", "-t", "1", "-m", "-u", "-i", "-n", "-p", "--", "systemctl", "restart", "--",
    service]

def selfExe : String := "/proc/self/exe"

/-- `NsenterRestartExecutor::restart`. -/
def restart (service : String) : Tick Unit := do
  let status ← orIo (← call (.command (nsenterRestartArgv selfExe service)))
  if status.success then return ()
  else
    throw (.io (.other ("\x605spot nsenter … systemctl restart " ++ service ++ "\x60 exited with " ++
      status.text)))

def restartIfNeeded (prevAppliedHash : Option String) (intendedHash service : String) : Tick Bool := do
  if !needsRestart prevAppliedHash intendedHash then return false
  else
    restart service
    return true

end Restart

section Node

def kataConfigAppliedAnnotation : String := "5spot.finos.org/kata-config-applied"

structure NodeState where
  kataRef : Option KataRef
  applied : Option String

def readNodeState (json : Json.Reader) (nodeName : String) : Tick NodeState := do
  let node ← orKube ("GET Node " ++ nodeName) (← call (.getNode nodeName))
  let applied := node.annotations.lookup kataConfigAppliedAnnotation
  match node.annotations.lookup Machine.kataConfigRefAnnotation with
  | none => return ⟨none, applied⟩
  | some raw =>
      match parseKataRef json raw with
      | .ok kataRef => return ⟨some kataRef, applied⟩
      | .error e =>
          throw (.context ("parsing " ++ Machine.kataConfigRefAnnotation ++ " on Node " ++ nodeName)
            (.reference e))

def recordPatch (hash : String) : Machine.NodePatch where
  annotations := [( kataConfigAppliedAnnotation, some hash)]

def recordApplied (nodeName hash : String) : Tick Unit := do
  orKube ("recording applied hash on Node " ++ nodeName)
    (← call (.patchNode nodeName (recordPatch hash)))

def clearPatch : Machine.NodePatch where
  annotations := [( kataConfigAppliedAnnotation, none)]
  labels := [(Machine.kataConfigLabel, none)]

def clearOptin (nodeName : String) : Tick Unit := do
  orKube ("clearing kata opt-in on Node " ++ nodeName) (← call (.patchNode nodeName clearPatch))

def configMapText (object : Option ConfigMap) (key : String) : Option String :=
  (object.bind ConfigMap.data).bind fun data => data.lookup key

def secretBytes (object : Option Secret) (key : String) : Option Bytes :=
  (object.bind Secret.data).bind fun data => data.lookup key

def fetchContent (kref : KataRef) : Tick (Option String) := do
  if kref.kind = kindConfigMap then
    match ← call (.getConfigMap kref.ns kref.name) with
    | .ok object => return configMapText object kref.key
    | .error e => throw (.kube e)
  else if kref.kind = kindSecret then
    match ← call (.getSecret kref.ns kref.name) with
    | .ok object => return (secretBytes object kref.key).map fromUtf8Lossy
    | .error e => throw (.kube e)
  else
    throw (.message ("unknown kata source kind " ++ Text.debug kref.kind ++
      " (expected ConfigMap or Secret)"))

end Node

def reconcileOnce (sha256 : Bytes → Bytes) (cli : Agent) : Tick Unit := do
  let state ← readNodeState cli.json cli.nodeName
  match state.kataRef with
  | none => do
      let dest ← confineDestPath cli.hostRoot kataConfigDestPath
      let _ ← syncContent sha256 none dest
      clearOptin cli.nodeName
  | some kref => do
      let dest ← confineDestPath cli.hostRoot kataConfigDestPath
      let content ← fetchContent kref
      let outcome ← syncContent sha256 (content.map asBytes) dest
      let intendedHash := intendedHashFor outcome
      if needsRestart state.applied intendedHash then
        recordApplied cli.nodeName intendedHash
        let service := kref.restartService
        match ← attempt (restartIfNeeded state.applied intendedHash service) with
        | .ok _ => return ()
        | .error e => throw (.context ("restarting host service " ++ service) e)
      else return ()

/-- The loop of the agent: ticks for ever, whether they fail or not. -/
def agentSystem (sha256 : Bytes → Bytes) (cli : Agent) :
    System Call Result World Reply (Except AgentError Unit) where
  exec w r c := w.exec cli r c
  program _ := (reconcileOnce sha256 cli).run
  restart w := w

end FiveSpot.Kata
