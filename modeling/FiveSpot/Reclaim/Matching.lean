import FiveSpot.Data.Text
import FiveSpot.Data.Utf8
import Mathlib.Data.List.Infix

/-!
# Which processes the reclaim agent matches

The controller renders `spec.killIfCommands` into a TOML text (`reconcilers/helpers.rs`), the agent
on the node parses that text and looks for a process that matches it (`reclaim_agent.rs`). The agent
has two lists to match with, the exact names and the parts of a command line; the renderer fills the
first and leaves the second empty.
-/

namespace FiveSpot.Reclaim

set_option autoImplicit false

open Utf8 (Bytes asBytes)

section Config

inductive Toml where
  | str (s : String)
  | int (n : Int)
  | float (text : String)
  | bool (b : Bool)
  | datetime (text : String)
  | arr (items : List Toml)
  | table (members : List (String × Toml))

/-- The members of a TOML document; the library keeps them sorted by key. -/
abbrev TomlTable := List (String × Toml)

/-- The TOML library: how it writes a table, and what it reads in a text that is well-formed. -/
structure TomlLibrary where
  write : TomlTable → String
  read : String → Option TomlTable

structure Config where
  matchCommands : List String
  matchArgvSubstrings : List String
  pollIntervalMs : Nat
  deriving DecidableEq

inductive ConfigError where
  | parse
  | invalid (text : String)
  deriving DecidableEq

def defaultPollIntervalMs : Nat := 250

def Toml.asStr? : Toml → Option String
  | .str s => some s
  | _ => none

def TomlTable.get? (table : TomlTable) (name : String) : Option Toml :=
  (table.find? fun member => member.1 == name).map Prod.snd

def TomlTable.strings (table : TomlTable) (name : String) : Option (List String) :=
  match table.get? name with
  | none => some []
  | some (.arr items) => items.mapM Toml.asStr?
  | some _ => none

def TomlTable.pollInterval (table : TomlTable) : Option Nat :=
  match table.get? "poll_interval_ms" with
  | none => some defaultPollIntervalMs
  | some (.int n) => if 0 ≤ n then some n.toNat else none
  | some _ => none

def configFields : List String := ["match_commands", "match_argv_substrings", "poll_interval_ms"]

/-- The derived deserializer; a field it does not know is an error. -/
def Config.deserialize (table : TomlTable) : Option Config :=
  if table.all fun member => configFields.contains member.1 then do
    let matchCommands ← table.strings "match_commands"
    let matchArgvSubstrings ← table.strings "match_argv_substrings"
    let pollIntervalMs ← table.pollInterval
    return { matchCommands, matchArgvSubstrings, pollIntervalMs }
  else none

def parseConfig (toml : TomlLibrary) (input : String) : Except ConfigError Config :=
  match (toml.read input).bind Config.deserialize with
  | none => .error .parse
  | some config =>
      if config.pollIntervalMs = 0 then .error (.invalid "poll_interval_ms must be > 0")
      else .ok config

def reclaimTable (commands : List String) : TomlTable :=
  [("match_argv_substrings", .arr []), ("match_commands", .arr (commands.map .str)),
    ("poll_interval_ms", .int defaultPollIntervalMs)]

def renderReclaimToml (toml : TomlLibrary) (commands : List String) : String :=
  "# Auto-generated by 5-spot controller from spec.killIfCommands\n" ++
    "# DO NOT EDIT — changes will be overwritten on next reconcile.\n" ++
    toml.write (reclaimTable commands)

theorem mapM_asStr (texts : List String) : (texts.map Toml.str).mapM Toml.asStr? = some texts := by
  induction texts with
  | nil => rfl
  | cons text texts ih =>
    rw [List.map_cons, List.mapM_cons, ih]
    rfl

theorem parseConfig_render {toml : TomlLibrary} {commands : List String}
    (hread : toml.read (renderReclaimToml toml commands) = some (reclaimTable commands)) :
    parseConfig toml (renderReclaimToml toml commands) =
      .ok ⟨commands, [], defaultPollIntervalMs⟩ := by
  have hcommands : (reclaimTable commands).strings "match_commands" = some commands :=
    mapM_asStr commands
  have hconfig : Config.deserialize (reclaimTable commands) =
      some ⟨commands, [], defaultPollIntervalMs⟩ := by
    have hknown : ((reclaimTable commands).all fun member => configFields.contains member.1) = true :=
      rfl
    rw [Config.deserialize, if_pos hknown, hcommands]
    rfl
  rw [parseConfig, hread, Option.bind_some, hconfig]
  rfl

end Config

section Match

/-- What `/proc/<pid>` shows of a process; a file that cannot be read is absent. -/
structure Process where
  comm : Option Bytes
  cmdline : Option Bytes

inductive MatchSource where
  | comm
  | argv
  deriving DecidableEq

structure Match where
  pid : Nat
  matchedPattern : String
  source : MatchSource
  deriving DecidableEq

def Process.name (p : Process) : Option String :=
  p.comm.bind fun raw => (Utf8.fromUtf8 raw).toOption.map (Text.trimEndMatches '\n')

/-- The bytes as characters, each by itself, with a space for the NUL between arguments. -/
def cmdlineText (raw : Bytes) : String :=
  .ofList (raw.map fun b => if b = 0 then ' ' else Char.ofNat b.toNat)

def matchPid (p : Process) (pid : Nat) (config : Config) : Option Match :=
  match p.name.bind fun name => config.matchCommands.find? (name == ·) with
  | some pattern => some ⟨pid, pattern, .comm⟩
  | none =>
      match p.cmdline.bind fun raw =>
        config.matchArgvSubstrings.find? fun pattern => Text.contains pattern (cmdlineText raw) with
      | some pattern => some ⟨pid, pattern, .argv⟩
      | none => none

variable {p : Process} {pid : Nat} {config : Config}

theorem matchPid_isSome_iff : (matchPid p pid config).isSome = true ↔
    (∃ pattern ∈ config.matchCommands, p.name = some pattern) ∨
      ∃ pattern ∈ config.matchArgvSubstrings, ∃ raw, p.cmdline = some raw ∧
        Text.contains pattern (cmdlineText raw) = true := by
  have hname : (∃ pattern ∈ config.matchCommands, p.name = some pattern) ↔
      (p.name.bind fun name => config.matchCommands.find? (name == ·)).isSome = true := by
    cases p.name with
    | none => simp
    | some name => simp [List.find?_isSome]
  have hcmdline : (∃ pattern ∈ config.matchArgvSubstrings, ∃ raw, p.cmdline = some raw ∧
        Text.contains pattern (cmdlineText raw) = true) ↔
      (p.cmdline.bind fun raw => config.matchArgvSubstrings.find? fun pattern =>
        Text.contains pattern (cmdlineText raw)).isSome = true := by
    cases p.cmdline with
    | none => simp
    | some raw => simp [List.find?_isSome]
  rw [hname, hcmdline, matchPid]
  split
  · rename_i pattern hfound
    simp [hfound]
  · rename_i hnone
    split
    · rename_i pattern hfound
      simp [hfound]
    · rename_i hfound
      simp [hnone, hfound]

end Match

section EndToEnd

/-- The command line, with NUL bytes read as spaces, has `pattern` somewhere in it. -/
def Process.Runs (p : Process) (pattern : String) : Prop :=
  ∃ raw, p.cmdline = some raw ∧ asBytes pattern <:+: raw.map fun b => if b = 0 then 32 else b

/-- What `killIfCommands` is documented to match: the name, or a part of the command line. -/
def Process.Listed (p : Process) (commands : List String) : Prop :=
  (∃ pattern ∈ commands, p.name = some pattern) ∨ ∃ pattern ∈ commands, p.Runs pattern

/--
From the controller's text the agent matches a process exactly when its name is one of the patterns.
That is what the list is documented to match on the processes that are matched by name or that no
pattern occurs in, and on no others.
-/
theorem kill_if_commands_match_iff (toml : TomlLibrary) (commands : List String)
    (hread : toml.read (renderReclaimToml toml commands) = some (reclaimTable commands)) :
    ∃ config, parseConfig toml (renderReclaimToml toml commands) = .ok config ∧
      ∀ pid (p : Process),
        ((matchPid p pid config).isSome = true ↔ ∃ pattern ∈ commands, p.name = some pattern) ∧
        (((matchPid p pid config).isSome = true ↔ p.Listed commands) ↔
          ((∃ pattern ∈ commands, p.Runs pattern) →
            ∃ pattern ∈ commands, p.name = some pattern)) := by
  refine ⟨_, parseConfig_render hread, fun pid p => ?_⟩
  have hmatch : (matchPid p pid ⟨commands, [], defaultPollIntervalMs⟩).isSome = true ↔
      ∃ pattern ∈ commands, p.name = some pattern := by
    rw [matchPid_isSome_iff]
    simp
  refine ⟨hmatch, ?_⟩
  rw [hmatch, Process.Listed]
  constructor
  · intro hagree hruns
    exact hagree.mpr (.inr hruns)
  · intro hnamed
    exact ⟨.inl, fun hlisted => hlisted.elim id hnamed⟩

def sampleToml : TomlLibrary where
  write _ := "match_argv_substrings = []\nmatch_commands = [\"idea\"]\npoll_interval_ms = 250\n"
  read _ := some (reclaimTable ["idea"])

def sampleJava : Process where
  comm := some (asBytes "java\n")
  cmdline := some (asBytes "java" ++ [0] ++ asBytes "-jar" ++ [0] ++ asBytes "/opt/idea/idea.jar")

def sampleShell : Process where
  comm := some (asBytes "sh\n")
  cmdline := some (asBytes "sh")

def sampleIdea : Process := { sampleJava with comm := some (asBytes "idea\n") }

theorem kill_if_commands_match_sample : ∃ config,
    parseConfig sampleToml (renderReclaimToml sampleToml ["idea"]) = .ok config ∧
      ∀ pid, (matchPid sampleIdea pid config).isSome = true ∧
        ((matchPid sampleShell pid config).isSome = true ↔ sampleShell.Listed ["idea"]) := by
  obtain ⟨config, hconfig, hmatch⟩ := kill_if_commands_match_iff sampleToml ["idea"] rfl
  refine ⟨config, hconfig, fun pid => ⟨(hmatch pid sampleIdea).1.mpr ?_,
    (hmatch pid sampleShell).2.mpr ?_⟩⟩
  · exact ⟨"idea", by simp, by decide +kernel⟩
  rintro ⟨pattern, hpattern, raw, hraw, hpart⟩
  obtain rfl : pattern = "idea" := List.mem_singleton.mp hpattern
  obtain rfl := Option.some.inj hraw
  exact absurd hpart (by decide +kernel)

/-- A pattern in the command line of a process with another name. -/
theorem pattern_in_cmdline_unmatched : ∃ config,
    parseConfig sampleToml (renderReclaimToml sampleToml ["idea"]) = .ok config ∧
      sampleJava.Listed ["idea"] ∧ matchPid sampleJava 1 config = none := by
  refine ⟨_, parseConfig_render rfl, .inr ⟨"idea", by simp, _, rfl, by decide +kernel⟩, ?_⟩
  decide +kernel

end EndToEnd

end FiveSpot.Reclaim
