import FiveSpot.Effects.Invariant
import FiveSpot.Effects.Oracle
import FiveSpot.Machine.Shutdown
import FiveSpot.Reclaim.Netlink

/-!
# The reclaim agent as a process

`run` of `cmd/reclaim_agent.rs` with what it calls: the host's identity, the look at the Node before
anything else, the two ways to find a process that matches, and the annotation of the Node. The
watcher of the ConfigMap is a task of its own; the process sees of it the latest config. The loops of
the scanners are followed for a number of turns, which is arbitrary.
-/

namespace FiveSpot.Reclaim.Agent

set_option autoImplicit false

open Effects Effects.Prog
open Machine (NodePatch StringMap reclaimRequestedAnnotation reclaimReasonAnnotation
  reclaimRequestedAtAnnotation reclaimRequestedValue)

section Host

/-- A Node as the agent reads it; the machine id is `status.nodeInfo.machineID`. -/
structure HostNode where
  node : Machine.Node
  machineId : Option String

inductive HostIdentityError where
  | readFailed (path source : String)
  | empty (path : String)
  | mismatch (hostId nodeId nodeName : String)
  | nodeMachineIdMissing (nodeName : String)

def HostIdentityError.text : HostIdentityError → String
  | .readFailed path source => "cannot read host machine-id from " ++ path ++ ": " ++ source
  | .empty path => "host machine-id at " ++ path ++ " is empty or whitespace-only"
  | .mismatch hostId nodeId nodeName =>
      "host identity mismatch — refusing to patch wrong Node: agent /etc/machine-id=" ++
        Text.debug hostId ++ ", Node/" ++ nodeName ++ ".status.nodeInfo.machineID=" ++
        Text.debug nodeId
  | .nodeMachineIdMissing nodeName =>
      "Node/" ++ nodeName ++ " has no status.nodeInfo.machineID; cannot verify host identity"

/-- `read_host_machine_id`, on what the file gives. -/
def readHostMachineId (path : String) (file : Except String String) :
    Except HostIdentityError String :=
  match file with
  | .error e => .error (.readFailed path e)
  | .ok raw => if (Text.trim raw).isEmpty then .error (.empty path) else .ok (Text.trim raw)

def compareMachineIds (node : HostNode) (nodeName expectedHostId : String) :
    Except HostIdentityError Unit :=
  match node.machineId.map Text.trim with
  | none => .error (.nodeMachineIdMissing nodeName)
  | some nodeId =>
      if nodeId.isEmpty then .error (.nodeMachineIdMissing nodeName)
      else if nodeId ≠ expectedHostId then .error (.mismatch expectedHostId nodeId nodeName)
      else .ok ()

theorem compareMachineIds_eq_ok {node : HostNode} {nodeName expected : String}
    (h : compareMachineIds node nodeName expected = .ok ()) :
    node.machineId.map Text.trim = some expected := by
  unfold compareMachineIds at h
  cases hid : node.machineId.map Text.trim with
  | none =>
    rw [hid] at h
    cases h
  | some nodeId =>
    simp only [hid] at h
    split at h
    · cases h
    · split at h
      · cases h
      · rename_i hsame
        rw [not_not.mp hsame]

theorem readHostMachineId_eq_ok {path id : String} {file : Except String String}
    (h : readHostMachineId path file = .ok id) :
    ∃ raw, file = .ok raw ∧ id = Text.trim raw ∧ id.isEmpty = false := by
  unfold readHostMachineId at h
  cases file with
  | error e => cases h
  | ok raw =>
    simp only at h
    split at h
    · cases h
    · rename_i hnot
      cases h
      exact ⟨raw, rfl, rfl, by simpa using hnot⟩

end Host

section Annotations

/-- Both sources share one tag. -/
def matchTag : MatchSource → String
  | .comm | .argv => "process-match"

def reclaimReason (m : Match) : String := matchTag m.source ++ ": " ++ m.matchedPattern

def buildPatchBody (m : Match) (timestamp : String) : NodePatch where
  annotations := [( reclaimRequestedAnnotation, some reclaimRequestedValue),
    ( reclaimReasonAnnotation, some (reclaimReason m)),
    ( reclaimRequestedAtAnnotation, some timestamp)]

def alreadyRequested (annotations : StringMap) : Bool :=
  annotations.lookup reclaimRequestedAnnotation == some reclaimRequestedValue

end Annotations

inductive DetectorFlag where
  | auto
  | netlink
  | poll

inductive Detector where
  | netlink
  | poll

structure Args where
  nodeName : String
  oneshot : Bool
  machineIdPath : String
  detector : DetectorFlag
  skipHostIdCheck : Bool
  /-- `cfg!(target_os = "linux")`. -/
  onLinux : Bool

inductive Wake where
  | changed
  | closed
  | elapsed

/-- What the wait of an armed netlink scanner sees next: a turn of the blocking task, or its channel. -/
inductive Selected where
  | event (result : Except String (Option ProcEvent))
  | panicked (text : String)
  | changed
  | closed

/-- Which branch is taken when the blocking task has ended with a match. -/
inductive Joined where
  | joined
  | changed
  | closed

inductive Call where
  | tryDefault
  | readMachineId
  | getNode
  | awaitInitialSync
  | probeNetlink
  | borrowConfig
  | awaitChange
  | readDir
  | process (pid : Nat)
  | sleep (millis : Nat)
  | subscribe
  | select
  | join
  | now
  | patchNode (patch : NodePatch)

@[reducible] def Reply : Call → Type
  | .tryDefault => Except String Unit
  | .readMachineId => Except String String
  | .getNode => Except KubeError HostNode
  | .awaitInitialSync => Bool
  | .probeNetlink | .subscribe => Except OpenError Unit
  | .borrowConfig => Option Config
  | .awaitChange => Wake
  | .readDir => Except String (List String)
  | .process _ => Process
  | .sleep _ => Unit
  | .select => Selected
  | .join => Joined
  | .now => String
  | .patchNode _ => Except KubeError Unit

/-- An error with the contexts it was given on the way. -/
inductive AgentError where
  | message (text : String)
  | context (text : String) (cause : AgentError)

/-- How a process ends that does not fail; one that is still in its loop has not ended. -/
inductive Ending where
  | exited
  | looping

abbrev AgentM (α : Type) : Type := ExceptT AgentError (Prog Call Reply) α

abbrev call (c : Call) : AgentM (Reply c) := ask c

def withContext {ε α : Type} (text : String) (cause : ε → String) : Except ε α → AgentM α
  | .ok a => pure a
  | .error e => throw (.context text (.message (cause e)))

section Detect

def scanEntries (config : Config) : List String → AgentM (Option Match)
  | [] => return none
  | name :: names => do
      match Text.parseU32 name with
      | none => scanEntries config names
      | some pid =>
          let process ← call (.process pid)
          match matchPid process pid config with
          | some m => return some m
          | none => scanEntries config names

/-- `scan_proc`; a process is read when its entry is reached. -/
def scan (config : Config) : AgentM (Option Match) := do
  if config.matchCommands.isEmpty && config.matchArgvSubstrings.isEmpty then return none
  else
    match ← call .readDir with
    | .error e => throw (.message e)
    | .ok entries => scanEntries config entries

def annotateNode (args : Args) (m : Match) (hostMachineId : Option String) : AgentM Unit := do
  match hostMachineId with
  | none => pure ()
  | some expected =>
      let node ← withContext ("fetch Node/" ++ args.nodeName ++ " for host-identity check") KubeError.text
        (← call .getNode)
      match compareMachineIds node args.nodeName expected with
      | .error e => throw (.message e.text)
      | .ok () => pure ()
  let ts ← call .now
  withContext ("patch Node/" ++ args.nodeName) KubeError.text (← call (.patchNode (buildPatchBody m ts)))

/-- The wait of either scanner for a config: whether to look again. -/
def awaitConfig (args : Args) : AgentM Bool := do
  if args.oneshot then throw (.message "no configmap observed during oneshot run")
  else
    match ← call .awaitChange with
    | .closed => return false
    | .changed | .elapsed => return true

def runScanner (args : Args) (hostMachineId : Option String) : Nat → AgentM Ending
  | 0 => return .looping
  | turns + 1 => do
      match ← call .borrowConfig with
      | none => if ← awaitConfig args then runScanner args hostMachineId turns else return .exited
      | some config =>
          match ← scan config with
          | some m =>
              annotateNode args m hostMachineId
              return .exited
          | none =>
              if args.oneshot then throw (.message "no match on single scan")
              else
                call (.sleep config.pollIntervalMs)
                runScanner args hostMachineId turns

/-- How the wait of an armed netlink scanner ends. -/
inductive Received where
  | matched (m : Match)
  | cleared
  | closed
  | failed (text : String)
  | looping

/-- The select on the blocking task and the channel, with the loop of the task in it. -/
def awaitMatch (config : Config) : Nat → AgentM Received
  | 0 => return .looping
  | turns + 1 => do
      match ← call .select with
      | .changed => return .cleared
      | .closed => return .closed
      | .panicked text => return .failed ("netlink recv task panicked: " ++ text)
      | .event (.error e) => return .failed ("netlink recv: " ++ e)
      | .event (.ok (some (.exec pid _))) =>
          let process ← call (.process pid)
          match matchPid process pid config with
          | none => awaitMatch config turns
          | some m =>
              match ← call .join with
              | .joined => return .matched m
              | .changed => return .cleared
              | .closed => return .closed
      | .event (.ok _) => awaitMatch config turns

def runNetlinkScanner (args : Args) (hostMachineId : Option String) : Nat → AgentM Ending
  | 0 => return .looping
  | turns + 1 => do
      match ← call .borrowConfig with
      | none => if ← awaitConfig args then runNetlinkScanner args hostMachineId turns else return .exited
      | some config =>
          match ← call .subscribe with
          | .error e => throw (.message (openErrorText e))
          | .ok () =>
              match ← awaitMatch config turns with
              | .matched m =>
                  annotateNode args m hostMachineId
                  return .exited
              | .cleared =>
                  if args.oneshot then throw (.message "config cleared during oneshot run")
                  else runNetlinkScanner args hostMachineId turns
              | .closed => return .exited
              | .failed text => throw (.message text)
              | .looping => return .looping

end Detect

def oneshotSyncTimeoutSecs : Nat := 30

/-- `DetectorFlag::resolve_with`; only `auto` on Linux tries to open the socket. -/
def resolveDetector (args : Args) : AgentM Detector :=
  match args.detector with
  | .netlink => return .netlink
  | .poll => return .poll
  | .auto =>
      if !args.onLinux then return .poll
      else do
        match ← call .probeNetlink with
        | .ok () => return .netlink
        | .error _ => return .poll

def hostMachineId (args : Args) : AgentM (Option String) := do
  if args.skipHostIdCheck then return none
  else
    let id ← withContext ("read host machine-id from " ++ args.machineIdPath ++
      " (set --skip-host-id-check=true to bypass)") HostIdentityError.text
      (readHostMachineId args.machineIdPath (← call .readMachineId))
    return some id

/-- Only a oneshot run waits for the watcher. -/
def initialSync (args : Args) : AgentM Bool :=
  if args.oneshot then call .awaitInitialSync else pure true

/-- From the watcher of the ConfigMap to the scanner. -/
def watchNode (args : Args) (turns : Nat) (hostMachineId : Option String) : AgentM Ending := do
  if !(← initialSync args) then
    throw (.message ("oneshot: the ConfigMap watch did not complete its initial list within " ++
      toString oneshotSyncTimeoutSecs ++ "s"))
  else
    match ← resolveDetector args with
    | .poll => runScanner args hostMachineId turns
    | .netlink => runNetlinkScanner args hostMachineId turns

def run (args : Args) (turns : Nat) : AgentM Ending := do
  withContext "build in-cluster kube client" id (← call .tryDefault)
  let hostMachineId ← hostMachineId args
  let node ← withContext ("fetch Node/" ++ args.nodeName) KubeError.text (← call .getNode)
  if alreadyRequested node.node.annotations then return .exited
  else watchNode args turns hostMachineId

section Contract

abbrev Log := History Call Reply

def readsNode : Sigma Reply → Option (Except KubeError HostNode)
  | ⟨.getNode, answer⟩ => some answer
  | _ => none

def firstLook : Log → Option (Except KubeError HostNode)
  | [] => none
  | x :: h => (firstLook h).or (readsNode x)

def lastLook (h : Log) : Option (Except KubeError HostNode) := h.findSome? readsNode

def readsConfig : Sigma Reply → Option (Option Config)
  | ⟨.borrowConfig, config⟩ => some config
  | _ => none

def lastConfig (h : Log) : Option (Option Config) := h.findSome? readsConfig

def readsProcess : Sigma Reply → Option (Nat × Process)
  | ⟨.process pid, process⟩ => some (pid, process)
  | _ => none

def lastProcess (h : Log) : Option (Nat × Process) := h.findSome? readsProcess

def Call.patches : Call → Bool
  | .patchNode _ => true
  | _ => false

/-- The process has found no request on the Node and has not sent one. -/
structure Watching (h : Log) : Prop where
  unrequested : ∃ node, firstLook h = some (.ok node) ∧
    alreadyRequested node.node.annotations = false
  unsent : ∀ x ∈ h, x.1.patches = false

/-- The process that was looked at last matches the config that was borrowed last. -/
structure Found (h : Log) (m : Match) : Prop where
  seen : ∃ config process, lastConfig h = some (some config) ∧ lastProcess h = some (m.pid, process) ∧
    matchPid process m.pid config = some m

/-- The Node is the host's own, as far as that is checked. -/
def Identified (args : Args) (h : Log) : Prop :=
  args.skipHostIdCheck = true ∨ ∃ raw node, ⟨.readMachineId, .ok raw⟩ ∈ h ∧
    (Text.trim raw).isEmpty = false ∧ lastLook h = some (.ok node) ∧
    node.machineId.map Text.trim = some (Text.trim raw)

/-- What has to go before a request is written to the Node. -/
structure Warranted (args : Args) (h : Log) (patch : NodePatch) : Prop where
  watching : Watching h
  identified : Identified args h
  found : ∃ m ts, Found h m ∧ ⟨.now, ts⟩ ∈ h ∧ patch = buildPatchBody m ts

inductive Permits (args : Args) (h : Log) : Call → Prop where
  | aside {c : Call} : c.patches = false → Permits args h c
  | patch {patch : NodePatch} : Warranted args h patch → Permits args h (.patchNode patch)

variable {α β : Type} {args : Args} {h h' : Log}

/-- `h'` is `h` with calls after it none of which is a patch. -/
abbrev Quieter (h h' : Log) : Prop := History.Grown (fun c : Call => c.patches = false) h h'

theorem firstLook_of_grown {P : Call → Prop} {answer : Except KubeError HostNode}
    (hgrown : History.Grown P h h') (hlook : firstLook h = some answer) :
    firstLook h' = some answer := by
  obtain ⟨l, rfl, -⟩ := hgrown
  induction l with
  | nil => exact hlook
  | cons x l ih => simp [firstLook, ih]

theorem Watching.after (hw : Watching h) (hgrown : Quieter h h') : Watching h' := by
  obtain ⟨node, hlook, hnot⟩ := hw.unrequested
  exact ⟨⟨node, firstLook_of_grown hgrown hlook, hnot⟩, hgrown.forall hw.unsent⟩

/-- The identity in hand is the one of the host, or none where it is not checked. -/
inductive HostKnown (args : Args) (h : Log) : Option String → Prop where
  | skipped : args.skipHostIdCheck = true → HostKnown args h none
  | read {raw : String} : ⟨.readMachineId, .ok raw⟩ ∈ h → (Text.trim raw).isEmpty = false →
      HostKnown args h (some (Text.trim raw))

theorem HostKnown.after {host : Option String} (hk : HostKnown args h host)
    (hkept : ∀ x ∈ h, x ∈ h') : HostKnown args h' host := by
  cases hk with
  | skipped hskip => exact .skipped hskip
  | read hmem hne => exact .read (hkept _ hmem) hne

/-- The process is past its first look and knows who it is. -/
structure Ready (args : Args) (host : Option String) (h : Log) : Prop where
  watching : Watching h
  known : HostKnown args h host

theorem Ready.after {host : Option String} (hr : Ready args host h) (hgrown : Quieter h h') :
    Ready args host h' := by
  refine ⟨hr.watching.after hgrown, hr.known.after ?_⟩
  obtain ⟨l, rfl, -⟩ := hgrown
  exact fun x hx => List.mem_append_right l hx

theorem Ready.cons {host : Option String} {x : Sigma Reply} (hr : Ready args host h)
    (hx : x.1.patches = false) : Ready args host (x :: h) :=
  hr.after ((History.Grown.refl h).cons hx x.2)

/-- Nothing is asked of what comes after. -/
abbrev Heeds (args : Args) (x : AgentM α) (h : Log) : Prop :=
  Keeps (Permits args) x h (fun _ _ => True) fun _ _ => True

theorem keeps_withContext {ε : Type} {permits : Log → Call → Prop} {text : String}
    {cause : ε → String} (v : Except ε α) :
    Keeps permits (withContext text cause v) h (fun a h' => v = .ok a ∧ h' = h) fun _ _ => True := by
  cases v with
  | ok a => exact keeps_pure ⟨rfl, rfl⟩
  | error e => exact keeps_throw trivial

theorem heeds_withContext {ε : Type} {text : String} {cause : ε → String} {v : Except ε α}
    {f : α → AgentM β} (hf : ∀ a, v = .ok a → Heeds args (f a) h) :
    Heeds args (withContext text cause v >>= f) h := by
  refine (keeps_withContext v).then fun a h' ha => ?_
  obtain ⟨ha, rfl⟩ := ha
  exact hf a ha

section Scan

variable {host : Option String} {config : Config}

def Detects (args : Args) (host : Option String) (h : Log) : Option Match → Prop
  | none => Ready args host h
  | some m => Ready args host h ∧ Found h m

theorem found_of_process {pid : Nat} {process : Process} {m : Match}
    (harmed : lastConfig h = some (some config)) (hm : matchPid process pid config = some m)
    (hlast : lastProcess h = some (pid, process)) : Found h m := by
  have hpid : m.pid = pid := by
    unfold matchPid at hm
    split at hm
    · cases hm
      rfl
    · split at hm
      · cases hm
        rfl
      · cases hm
  subst hpid
  exact ⟨config, process, harmed, hlast, hm⟩

theorem keeps_scanEntries (entries : List String) (hr : Ready args host h)
    (harmed : lastConfig h = some (some config)) :
    Keeps (Permits args) (scanEntries config entries) h (fun found h' => Detects args host h' found)
      fun _ _ => True := by
  induction entries generalizing h with
  | nil => exact keeps_pure hr
  | cons name names ih =>
    unfold scanEntries
    split
    · exact ih hr harmed
    · refine keeps_ask_bind (.aside rfl) fun process => ?_
      have hr' : Ready args host (⟨.process _, process⟩ :: h) := hr.cons rfl
      split
      · rename_i m hm
        exact keeps_pure ⟨hr', found_of_process harmed hm rfl⟩
      · exact ih hr' harmed

theorem keeps_scan (hr : Ready args host h) (harmed : lastConfig h = some (some config)) :
    Keeps (Permits args) (scan config) h (fun found h' => Detects args host h' found)
      fun _ _ => True := by
  unfold scan
  split
  · exact keeps_pure hr
  · refine keeps_ask_bind (.aside rfl) fun answer => ?_
    split
    · exact keeps_throw trivial
    · exact keeps_scanEntries _ (hr.cons rfl) harmed

def Hands (args : Args) (host : Option String) (h : Log) : Received → Prop
  | .matched m => Ready args host h ∧ Found h m
  | _ => Ready args host h

theorem keeps_awaitMatch (turns : Nat) (hr : Ready args host h)
    (harmed : lastConfig h = some (some config)) :
    Keeps (Permits args) (awaitMatch config turns) h (fun received h' => Hands args host h' received)
      fun _ _ => True := by
  induction turns generalizing h with
  | zero => exact keeps_pure hr
  | succ turns ih =>
    refine keeps_ask_bind (.aside rfl) fun selected => ?_
    have hr₁ : Ready args host (⟨.select, selected⟩ :: h) := hr.cons rfl
    split
    · exact keeps_pure hr₁
    · exact keeps_pure hr₁
    · exact keeps_pure hr₁
    · exact keeps_pure hr₁
    · refine keeps_ask_bind (.aside rfl) fun process => ?_
      have hr₂ := hr₁.cons (x := ⟨.process _, process⟩) rfl
      split
      · exact ih hr₂ harmed
      · rename_i m hm
        refine keeps_ask_bind (.aside rfl) fun branch => ?_
        cases branch with
        | joined => exact keeps_pure ⟨hr₂.cons rfl, found_of_process harmed hm rfl⟩
        | changed => exact keeps_pure (hr₂.cons rfl)
        | closed => exact keeps_pure (hr₂.cons rfl)
    · exact ih hr₁ harmed

end Scan

section Conformance

variable {host : Option String} {m : Match}

theorem Found.cons {x : Sigma Reply} (hf : Found h m) (hconfig : readsConfig x = none)
    (hprocess : readsProcess x = none) : Found (x :: h) m := by
  obtain ⟨config, process, harmed, hlast, hm⟩ := hf.seen
  refine ⟨config, process, ?_, ?_, hm⟩
  · rw [lastConfig, List.findSome?_cons, hconfig]
    exact harmed
  · rw [lastProcess, List.findSome?_cons, hprocess]
    exact hlast

/-- The patch and what it needs: the clock does not come between the look at the Node and the patch. -/
theorem heeds_writeRequest (hw : Watching h) (hid : Identified args h) (hf : Found h m) :
    Heeds args (do
      let ts ← call .now
      withContext ("patch Node/" ++ args.nodeName) KubeError.text
        (← call (.patchNode (buildPatchBody m ts)))) h := by
  refine keeps_ask_bind (.aside rfl) fun ts => ?_
  have hkept : ∀ x ∈ h, x ∈ (⟨.now, ts⟩ :: h : Log) := fun _ hx => List.mem_cons_of_mem _ hx
  have hgrown : Quieter h (⟨.now, ts⟩ :: h) := .cons (.refl h) (by rfl) ts
  have hid' : Identified args (⟨.now, ts⟩ :: h) := by
    rcases hid with hskip | ⟨raw, node, hraw, hne, hlook, hsame⟩
    · exact Or.inl hskip
    · exact Or.inr ⟨raw, node, hkept _ hraw, hne, hlook, hsame⟩
  have hwarranted : Warranted args (⟨.now, ts⟩ :: h) (buildPatchBody m ts) :=
    { watching := hw.after hgrown
      identified := hid'
      found := ⟨m, ts, hf.cons rfl rfl, List.mem_cons_self, rfl⟩ }
  refine keeps_ask_bind (.patch hwarranted) fun answer => ?_
  exact (keeps_withContext answer).weaken (fun _ _ _ => trivial) fun _ _ _ => trivial

theorem heeds_annotateNode (hr : Ready args host h) (hf : Found h m) :
    Heeds args (annotateNode args m host) h := by
  cases hr.known with
  | skipped hskip => exact heeds_writeRequest hr.watching (Or.inl hskip) hf
  | @read raw hraw hne =>
    refine keeps_ask_bind (.aside rfl) fun answer => ?_
    have hkept : ∀ x ∈ h, x ∈ (⟨.getNode, answer⟩ :: h : Log) := fun _ hx => List.mem_cons_of_mem _ hx
    refine heeds_withContext fun node hnode => ?_
    split
    · exact keeps_throw trivial
    · rename_i hsame
      subst hnode
      refine heeds_writeRequest (hr.cons rfl).watching ?_ (hf.cons rfl rfl)
      exact Or.inr ⟨raw, node, hkept _ hraw, hne, rfl, compareMachineIds_eq_ok hsame⟩

theorem keeps_awaitConfig (hr : Ready args host h) :
    Keeps (Permits args) (awaitConfig args) h (fun _ h' => Ready args host h') fun _ _ => True := by
  unfold awaitConfig
  split
  · exact keeps_throw trivial
  · refine keeps_ask_bind (.aside rfl) fun wake => ?_
    cases wake <;> exact keeps_pure (hr.cons rfl)

theorem heeds_runScanner (turns : Nat) (hr : Ready args host h) :
    Heeds args (runScanner args host turns) h := by
  induction turns generalizing h with
  | zero => exact keeps_pure trivial
  | succ turns ih =>
    refine keeps_ask_bind (.aside rfl) fun config => ?_
    cases config with
    | none =>
      refine (keeps_awaitConfig (hr.cons rfl)).then fun again h₁ hr => ?_
      cases again with
      | false => exact keeps_pure trivial
      | true => exact ih hr
    | some config =>
      refine (keeps_scan (hr.cons rfl) rfl).then fun found h₁ hfound => ?_
      cases found with
      | some m =>
        exact (heeds_annotateNode hfound.1 hfound.2).then fun _ _ _ => keeps_pure trivial
      | none =>
        simp only
        split
        · exact keeps_throw trivial
        · exact keeps_ask_bind (.aside rfl) fun _ => ih (hfound.cons rfl)

theorem heeds_runNetlinkScanner (turns : Nat) (hr : Ready args host h) :
    Heeds args (runNetlinkScanner args host turns) h := by
  induction turns generalizing h with
  | zero => exact keeps_pure trivial
  | succ turns ih =>
    refine keeps_ask_bind (.aside rfl) fun config => ?_
    cases config with
    | none =>
      refine (keeps_awaitConfig (hr.cons rfl)).then fun again h₁ hr => ?_
      cases again with
      | false => exact keeps_pure trivial
      | true => exact ih hr
    | some config =>
      refine keeps_ask_bind (.aside rfl) fun opened => ?_
      cases opened with
      | error e => exact keeps_throw trivial
      | ok _ =>
        have hr' := (hr.cons (x := ⟨.borrowConfig, some config⟩) rfl).cons
          (x := ⟨.subscribe, .ok ()⟩) rfl
        refine (keeps_awaitMatch turns hr' rfl).then
          fun received h₁ hreceived => ?_
        cases received with
        | matched m =>
          exact (heeds_annotateNode hreceived.1 hreceived.2).then fun _ _ _ => keeps_pure trivial
        | cleared =>
          simp only
          split
          · exact keeps_throw trivial
          · exact ih hreceived
        | closed => exact keeps_pure trivial
        | failed text => exact keeps_throw trivial
        | looping => exact keeps_pure trivial

theorem keeps_resolveDetector (hr : Ready args host h) :
    Keeps (Permits args) (resolveDetector args) h (fun _ h' => Ready args host h')
      fun _ _ => True := by
  unfold resolveDetector
  split
  · exact keeps_pure hr
  · exact keeps_pure hr
  · split
    · exact keeps_pure hr
    · refine keeps_ask_bind (.aside rfl) fun opened => ?_
      cases opened <;> exact keeps_pure (hr.cons rfl)

theorem heeds_watchNode (turns : Nat) (hr : Ready args host h) :
    Heeds args (watchNode args turns host) h := by
  have hsync : Keeps (Permits args) (initialSync args) h (fun _ h' => Ready args host h')
      fun _ _ => True := by
    unfold initialSync
    split
    · exact (keeps_ask (.aside rfl)).weaken (fun _ _ hh => hh ▸ hr.cons rfl) fun _ _ _ => trivial
    · exact keeps_pure hr
  refine hsync.then fun synced h₁ hr => ?_
  split
  · exact keeps_throw trivial
  · refine (keeps_resolveDetector hr).then fun detector h₂ hr => ?_
    cases detector with
    | poll => exact heeds_runScanner turns hr
    | netlink => exact heeds_runNetlinkScanner turns hr

/-- Before the look at the Node nothing has been sent. -/
structure Starting (args : Args) (host : Option String) (h : Log) : Prop where
  unlooked : firstLook h = none
  unsent : ∀ x ∈ h, x.1.patches = false
  known : HostKnown args h host

theorem keeps_hostMachineId (args : Args) (hlook : firstLook h = none) (hunsent : ∀ x ∈ h, x.1.patches = false) :
    Keeps (Permits args) (hostMachineId args) h (fun host h' => Starting args host h')
      fun _ _ => True := by
  unfold hostMachineId
  split
  · rename_i hskip
    exact keeps_pure ⟨hlook, hunsent, .skipped hskip⟩
  · refine keeps_ask_bind (.aside rfl) fun file => ?_
    refine (keeps_withContext _).bind (fun id h' hid => ?_) fun _ _ _ => trivial
    obtain ⟨hid, rfl⟩ := hid
    obtain ⟨raw, rfl, rfl, hne⟩ := readHostMachineId_eq_ok hid
    refine keeps_pure ⟨?_, ?_, .read List.mem_cons_self hne⟩
    · simp [firstLook, hlook, readsNode]
    · exact List.forall_mem_cons.mpr ⟨rfl, hunsent⟩

theorem heeds_run (args : Args) (turns : Nat) : Heeds args (run args turns) [] := by
  refine keeps_ask_bind (.aside rfl) fun client => ?_
  refine heeds_withContext fun _ _ => ?_
  have hunsent : ∀ x ∈ ([⟨.tryDefault, client⟩] : Log), x.1.patches = false := by simp [Call.patches]
  refine (keeps_hostMachineId args rfl hunsent).then fun host h₁ hstart => ?_
  refine keeps_ask_bind (.aside rfl) fun answer => ?_
  refine heeds_withContext fun node hnode => ?_
  subst hnode
  split
  · exact keeps_pure trivial
  · rename_i hnot
    have hlook : firstLook (⟨.getNode, .ok node⟩ :: h₁) = some (.ok node) := by
      simp [firstLook, hstart.unlooked, readsNode]
    have hwatching : Watching (⟨.getNode, .ok node⟩ :: h₁) :=
      ⟨⟨node, hlook, by simpa using hnot⟩, List.forall_mem_cons.mpr ⟨rfl, hstart.unsent⟩⟩
    exact heeds_watchNode turns
      ⟨hwatching, hstart.known.after fun _ hx => List.mem_cons_of_mem _ hx⟩

end Conformance

end Contract

section System

/-- What the process finds around it. -/
structure World where
  /-- The Node of the given name, if there is one. -/
  node : Option HostNode
  machineIdFile : Except String String
  /-- The config the watcher of the ConfigMap has sent last. -/
  config : Option Config

/-- How the surroundings answer at a moment: the API call as given, and of the rest what is asked for. -/
structure Moment where
  answer : Answer
  client : Except String Unit
  synced : Bool
  opened : Except OpenError Unit
  wake : Wake
  entries : Except String (List String)
  process : Process
  selected : Selected
  branch : Joined
  time : String

def World.patchNode (w : World) (patch : NodePatch) : Except KubeError World :=
  match w.node with
  | none => notFound
  | some n => .ok { w with node := some { n with node := patch.apply n.node } }

def World.exec (w : World) (c : Call) (t : Moment) : Reply c × World :=
  match c with
  | .tryDefault => (t.client, w)
  | .readMachineId => (w.machineIdFile, w)
  | .getNode => (readAnswer t.answer (w.node.elim notFound .ok), w)
  | .awaitInitialSync => (t.synced, w)
  | .probeNetlink => (t.opened, w)
  | .borrowConfig => (w.config, w)
  | .awaitChange => (t.wake, w)
  | .readDir => (t.entries, w)
  | .process _ => (t.process, w)
  | .sleep _ => ((), w)
  | .subscribe => (t.opened, w)
  | .select => (t.selected, w)
  | .join => (t.branch, w)
  | .now => (t.time, w)
  | .patchNode patch => writeAnswer w t.answer (w.patchNode patch)

/-- The process on its node; the DaemonSet starts it again when it has ended. -/
def agentSystem (args : Args) (turns : Nat) :
    System Call Reply World Moment (Except AgentError Ending) where
  exec := World.exec
  program := fun _ => (run args turns).run
  restart := id

def agentContract (args : Args) : Contract Call Reply World (Except AgentError Ending) where
  answers _ _ _ := True
  permits _ h c := Permits args h c
  returns _ _ _ := True

theorem agentContract_binds (args : Args) (turns : Nat) (w : World) :
    (agentContract args).Binds w [] ((agentSystem args turns).program w) :=
  (heeds_run args turns).meets.mono fun _ _ _ => trivial

/--
Whatever the agent writes to the Node is a whole request for a process that it has just seen match the
config then in force. The process has sent none before and found none when it started, and unless the
check is switched off, the Node it looked at last is the one of its own host.
-/
theorem requests_are_warranted (args : Args) (turns : Nat) (w : World)
    (es : List (Event World Moment)) (cur : Current Call Reply World) (patch : NodePatch)
    (k : Reply (.patchNode patch) → Prog Call Reply (Except AgentError Ending))
    (hpending : ((agentSystem args turns).run (.idle w) es).inflight =
      some (cur, .call (.patchNode patch) k)) : Warranted args cur.done patch := by
  have hgoverns : (agentContract args).Governs ((agentSystem args turns).run (.idle w) es) :=
    Contract.governs_run (agentContract_binds args turns) (fun _ _ _ => trivial) w es
  cases (hgoverns cur _ hpending).1 with
  | aside hnot => cases hnot
  | patch hwarranted => exact hwarranted

def sampleArgs : Args := ⟨"node-1", false, "/etc/machine-id", .poll, false, true⟩

def sampleWorld : World where
  node := some ⟨⟨[], [], false, [], true⟩, some "0a1b"⟩
  machineIdFile := .ok "0a1b\n"
  config := some ⟨["idea"], [], 250⟩

def sampleMoment : Moment where
  answer := .ok
  client := .ok ()
  synced := true
  opened := .ok ()
  wake := .elapsed
  entries := .ok ["self", "7"]
  process := ⟨some (Utf8.asBytes "idea\n"), none⟩
  selected := .closed
  branch := .joined
  time := "2026-01-05T09:00:00+00:00"

def sampleUntilPatch : List (Event World Moment) := .start :: List.replicate 8 (.next sampleMoment)

theorem sample_request_warranted :
    Warranted sampleArgs
      (((agentSystem sampleArgs 1).run (.idle sampleWorld) sampleUntilPatch).view.current.elim []
        Current.done)
      (buildPatchBody ⟨7, "idea", .comm⟩ sampleMoment.time) :=
  requests_are_warranted sampleArgs 1 sampleWorld sampleUntilPatch _
    (buildPatchBody ⟨7, "idea", .comm⟩ sampleMoment.time) _ rfl

end System

end FiveSpot.Reclaim.Agent
