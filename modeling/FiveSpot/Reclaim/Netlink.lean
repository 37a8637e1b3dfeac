import FiveSpot.Effects.Channel
import FiveSpot.Reclaim.Matching

/-!
# The netlink scanner

`run_netlink_scanner` of `cmd/reclaim_agent.rs`: while the agent is armed, a blocking task owns the
netlink subscriber and reads from it. When the config changes, the scanner drops the handle of the task
and looks at the config again; the task is not told, and keeps its subscriber until a read from it
fails or a process matches.
-/

namespace FiveSpot.Reclaim

set_option autoImplicit false

open Effects

inductive ProcEvent where
  | exec (pid tgid : Nat)
  | other (what : Nat)
  deriving DecidableEq

inductive OpenError where
  | unsupported
  | failed (text : String)
  deriving DecidableEq

/-- One turn of the loop of the blocking task: go on, or end with a match or an error. -/
def recvStep (root : Nat → Process) (config : Config) :
    Except String (Option ProcEvent) → Option (Except String Match)
  | .ok (some (.exec pid _)) => (matchPid (root pid) pid config).map .ok
  | .ok (some (.other _)) => none
  | .ok none => none
  | .error e => some (.error ("netlink recv: " ++ e))

structure RecvTask where
  id : Nat
  config : Config
  deriving DecidableEq

/-- Where the scanner is: before it reads the config, in one of its two waits, or returned. -/
inductive Position where
  | top
  | idle
  | armed (task : Nat)
  | returned (result : Except String Unit)

structure Scanner where
  channel : Channel (Option Config)
  position : Position
  /-- The tasks that have not ended; each has a subscriber open. -/
  running : List RecvTask
  /-- How the other tasks ended. -/
  ended : List (Nat × Except String Match)
  spawned : Nat

inductive ScanEvent where
  /-- The watcher of the ConfigMap sends a config, or that there is none. -/
  | configured (config : Option Config)
  | close
  /-- The scanner reads the config; opening a subscriber, if it needs one, goes as given. -/
  | read (opened : Except OpenError Unit)
  /-- The wait ends by the branch of the channel. -/
  | changed
  | idleWakeup
  /-- The read of a task returns. -/
  | received (task : Nat) (result : Except String (Option ProcEvent))
  | panicked (task : Nat) (text : String)
  /-- The wait ends by the branch of the task; annotating the Node after a match goes as given. -/
  | joined (annotated : Except String Unit)

def openErrorText : OpenError → String
  | .unsupported =>
      "netlink detector requested but the netlink proc connector is not " ++
        "supported on this platform — pass --detector=poll to use the /proc " ++
        "fallback or run on Linux"
  | .failed text =>
      "open netlink proc-connector subscriber (CAP_NET_ADMIN required and " ++
        "CONFIG_PROC_EVENTS=y in kernel): " ++ text

namespace Scanner

variable (root : Nat → Process) (oneshot : Bool) (s : Scanner)

def readConfig (opened : Except OpenError Unit) : Scanner :=
  match s.channel.value with
  | none =>
      if oneshot then
        { s with position := .returned (.error "no configmap observed during oneshot run") }
      else { s with position := .idle }
  | some config =>
      match opened with
      | .error e => { s with position := .returned (.error (openErrorText e)) }
      | .ok () =>
          { s with
            position := .armed s.spawned
            running := ⟨s.spawned, config⟩ :: s.running
            spawned := s.spawned + 1 }

def idleChanged : Scanner :=
  match s.channel.changed with
  | .pending => s
  | .changed channel => { s with channel, position := .top }
  | .closed => { s with position := .returned (.ok ()) }

/-- The channel branch of the wait for a match: the handle of the task is dropped. -/
def armedChanged : Scanner :=
  match s.channel.changed with
  | .pending => s
  | .changed channel =>
      if oneshot then
        { s with channel, position := .returned (.error "config cleared during oneshot run") }
      else { s with channel, position := .top }
  | .closed => { s with position := .returned (.ok ()) }

def finish (task : Nat) (result : Except String Match) : Scanner :=
  { s with
    running := s.running.filter fun t => t.id != task
    ended := (task, result) :: s.ended }

def receive (task : Nat) (result : Except String (Option ProcEvent)) : Scanner :=
  match s.running.find? fun t => t.id == task with
  | none => s
  | some t =>
      match recvStep root t.config result with
      | none => s
      | some outcome => s.finish task outcome

def join (task : Nat) (annotated : Except String Unit) : Scanner :=
  match s.ended.lookup task with
  | none => s
  | some (.ok _) => { s with position := .returned annotated }
  | some (.error e) => { s with position := .returned (.error e) }

def step : ScanEvent → Scanner
  | .configured config => { s with channel := s.channel.send config }
  | .close => { s with channel := s.channel.close }
  | .read opened =>
      match s.position with
      | .top => s.readConfig oneshot opened
      | _ => s
  | .changed =>
      match s.position with
      | .idle => s.idleChanged
      | .armed _ => s.armedChanged oneshot
      | _ => s
  | .idleWakeup =>
      match s.position with
      | .idle => { s with position := .top }
      | _ => s
  | .received task result => s.receive root task result
  | .panicked task text =>
      if s.running.any fun t => t.id == task then
        s.finish task (.error ("netlink recv task panicked: " ++ text))
      else s
  | .joined annotated =>
      match s.position with
      | .armed task => s.join task annotated
      | _ => s

def start : Scanner := ⟨.init none, .top, [], [], 0⟩

def run (es : List ScanEvent) : Scanner := es.foldl (step root oneshot) start

/-- Where the scanner waits for the next change, at most one subscriber is open, and none when the config
it waits with is none. -/
def Released : Prop :=
  match s.position with
  | .idle => s.running = []
  | .armed _ => s.running.length ≤ 1
  | .top | .returned _ => True

/-- A change that is taken while armed finds the task of this arming ended. -/
def admits : ScanEvent → Bool
  | .changed =>
      match s.position with
      | .armed task => !s.channel.unseen || !s.running.any fun t => t.id == task
      | _ => true
  | _ => true

def allows : Scanner → List ScanEvent → Bool
  | _, [] => true
  | s, e :: es => s.admits e && allows (s.step root oneshot e) es

section Invariant

/-- At most the task of this arming runs. -/
structure Tidy : Prop where
  few : s.running.length ≤ 1
  none : s.position = .top ∨ s.position = .idle → s.running = []
  own : ∀ task, s.position = .armed task → ∀ t ∈ s.running, t.id = task

variable {root oneshot s}

theorem Tidy.released (h : s.Tidy) : s.Released := by
  unfold Released
  split
  · exact h.none (.inr (by assumption))
  · exact h.few
  · trivial
  · trivial

theorem tidy_start : start.Tidy where
  few := Nat.zero_le _
  none _ := rfl
  own _ _ _ ht := by cases ht

theorem Tidy.of_sublist (h : s.Tidy) {s' : Scanner} (hposition : s'.position = s.position)
    (hrunning : s'.running.Sublist s.running) : s'.Tidy where
  few := hrunning.length_le.trans h.few
  none hpos := by
    rw [hposition] at hpos
    rw [h.none hpos] at hrunning
    exact List.sublist_nil.mp hrunning
  own task hpos t ht := by
    rw [hposition] at hpos
    exact h.own task hpos t (hrunning.subset ht)

theorem tidy_of_running_nil {s : Scanner} (hrunning : s.running = []) : s.Tidy where
  few := by simp [hrunning]
  none _ := hrunning
  own _ _ t ht := by simp [hrunning] at ht

theorem Tidy.returned (h : s.Tidy) {s' : Scanner} {result : Except String Unit}
    (hposition : s'.position = .returned result) (hrunning : s'.running = s.running) : s'.Tidy where
  few := hrunning ▸ h.few
  none hpos := by
    rw [hposition] at hpos
    rcases hpos with hpos | hpos <;> cases hpos
  own task hpos := by
    rw [hposition] at hpos
    cases hpos

theorem Tidy.readConfig (h : s.Tidy) (hpos : s.position = .top) (opened : Except OpenError Unit) :
    (s.readConfig oneshot opened).Tidy := by
  have hnil := h.none (.inl hpos)
  unfold Scanner.readConfig
  split
  · split
    · exact h.returned rfl rfl
    · exact tidy_of_running_nil hnil
  · split
    · exact h.returned rfl rfl
    · refine ⟨by simp [hnil], fun hpos => ?_, fun task hpos t ht => ?_⟩
      · rcases hpos with hpos | hpos <;> cases hpos
      · cases hpos
        rw [hnil, List.mem_singleton] at ht
        rw [ht]

theorem Tidy.idleChanged (h : s.Tidy) (hpos : s.position = .idle) : s.idleChanged.Tidy := by
  have hnil := h.none (.inr hpos)
  unfold Scanner.idleChanged
  split
  · exact h
  · exact tidy_of_running_nil hnil
  · exact h.returned rfl rfl

/-- Here the condition is used: the only task that could still run has ended. -/
theorem Tidy.armedChanged (h : s.Tidy) {task : Nat} (hpos : s.position = .armed task)
    (hadmits : s.admits .changed = true) : (s.armedChanged oneshot).Tidy := by
  unfold Scanner.armedChanged
  split
  · exact h
  · rename_i channel hchanged
    obtain ⟨hunseen, -⟩ := Channel.changed_eq_changed hchanged
    have hnil : s.running = [] := by
      simp only [admits, hpos, hunseen, Bool.not_true, Bool.false_or, Bool.not_eq_true',
        List.any_eq_false, beq_iff_eq] at hadmits
      exact List.eq_nil_iff_forall_not_mem.mpr fun t ht => hadmits t ht (h.own task hpos t ht)
    split
    · exact h.returned rfl rfl
    · exact tidy_of_running_nil hnil
  · exact h.returned rfl rfl

theorem Tidy.finish (h : s.Tidy) (task : Nat) (result : Except String Match) :
    (s.finish task result).Tidy :=
  h.of_sublist rfl List.filter_sublist

theorem Tidy.join (h : s.Tidy) (task : Nat) (annotated : Except String Unit) :
    (s.join task annotated).Tidy := by
  unfold Scanner.join
  split
  · exact h
  · exact h.returned rfl rfl
  · exact h.returned rfl rfl

theorem Tidy.step (h : s.Tidy) (e : ScanEvent) (hadmits : s.admits e = true) :
    (s.step root oneshot e).Tidy := by
  cases e with
  | configured config => exact h.of_sublist rfl (List.Sublist.refl _)
  | close => exact h.of_sublist rfl (List.Sublist.refl _)
  | read opened =>
    cases hpos : s.position with
    | top => simpa only [Scanner.step, hpos] using h.readConfig hpos opened
    | idle | armed | returned => simpa only [Scanner.step, hpos] using h
  | changed =>
    cases hpos : s.position with
    | idle => simpa only [Scanner.step, hpos] using h.idleChanged hpos
    | armed task => simpa only [Scanner.step, hpos] using h.armedChanged hpos hadmits
    | top | returned => simpa only [Scanner.step, hpos] using h
  | idleWakeup =>
    cases hpos : s.position with
    | idle =>
      simp only [Scanner.step, hpos]
      exact tidy_of_running_nil (h.none (.inr hpos))
    | top | armed | returned => simpa only [Scanner.step, hpos] using h
  | received task result =>
    change (s.receive root task result).Tidy
    unfold Scanner.receive
    split
    · exact h
    · split
      · exact h
      · exact h.finish task _
  | panicked task text =>
    change (if _ then _ else _ : Scanner).Tidy
    split
    · exact h.finish task _
    · exact h
  | joined annotated =>
    cases hpos : s.position with
    | armed task => simpa only [Scanner.step, hpos] using h.join task annotated
    | top | idle | returned => simpa only [Scanner.step, hpos] using h

theorem Tidy.run (h : s.Tidy) {es : List ScanEvent} (hallows : allows root oneshot s es = true) :
    (es.foldl (Scanner.step root oneshot) s).Tidy := by
  induction es generalizing s with
  | nil => exact h
  | cons e es ih =>
    obtain ⟨hadmits, hrest⟩ := (Bool.and_eq_true _ _).mp hallows
    exact ih (h.step e hadmits) hrest

end Invariant

/-- In every run in which no change is taken while the task of the arming still reads, the scanner never
waits with more than one subscriber open, and with none when there is no config. -/
theorem subscriber_released (root : Nat → Process) (oneshot : Bool) (es : List ScanEvent)
    (hallows : allows root oneshot start es = true) : (run root oneshot es).Released :=
  (tidy_start.run hallows).released

section Sample

def sampleConfig : Config := ⟨["java"], [], 250⟩

def sampleProcess : Process := ⟨none, none⟩

/-- The task fails before the config is cleared. -/
theorem subscriber_released_after_failure :
    (run (fun _ => sampleProcess) false [.read (.ok ()), .configured (some sampleConfig), .changed,
      .read (.ok ()), .received 0 (.error "ENOBUFS"), .configured none, .changed, .read (.ok ())]).Released :=
  subscriber_released _ _ _ (by decide)

/-- What a run leaves behind: whether the scanner waits for arming, whether it waits armed, and how many
subscribers are open. -/
def waits (s : Scanner) : Bool × Bool × Nat :=
  match s.position with
  | .idle => (true, false, s.running.length)
  | .armed _ => (false, true, s.running.length)
  | .top | .returned _ => (false, false, s.running.length)

/-- The config is cleared, or changed, while the task reads: the subscriber stays open in the wait for
arming, and a second one is opened beside it. The same happens with one config that was there before the
first read, which does not mark it as seen. -/
theorem subscriber_kept_after_change :
    waits (run (fun _ => sampleProcess) false [.read (.ok ()), .configured (some sampleConfig), .changed,
        .read (.ok ()), .configured none, .changed, .read (.ok ())]) = (true, false, 1) ∧
      waits (run (fun _ => sampleProcess) false [.read (.ok ()), .configured (some sampleConfig), .changed,
        .read (.ok ()), .configured (some ⟨["idea"], [], 250⟩), .changed, .read (.ok ())]) =
          (false, true, 2) ∧
      waits (run (fun _ => sampleProcess) false [.configured (some sampleConfig), .read (.ok ()), .changed,
        .read (.ok ())]) = (false, true, 2) := by
  decide

end Sample

end Scanner

end FiveSpot.Reclaim
