import FiveSpot.Effects.Watch
import FiveSpot.Reclaim.Matching

/-!
# What the reclaim agent is armed with

`cmd/reclaim_agent.rs` watches the one ConfigMap of its node and keeps the config that the scanner
runs with. A malformed payload leaves the config as it is, and so do the two ends of a listing.
-/

namespace FiveSpot.Reclaim

set_option autoImplicit false

open Effects

structure ConfigMap where
  data : Option (List (String × String))

def reclaimConfigDataKey : String := "reclaim.toml"

def configmapToConfig (toml : TomlLibrary) (cm : ConfigMap) : Except ConfigError (Option Config) :=
  match cm.data with
  | none => .ok none
  | some data =>
      match data.find? fun member => member.1 == reclaimConfigDataKey with
      | none => .ok none
      | some (_, body) => (parseConfig toml body).map some

/-- The two channels of the watcher: the config, and whether the initial list is complete. -/
structure Channels where
  config : Option Config
  synced : Bool

def pushParsed (toml : TomlLibrary) (cm : ConfigMap) (s : Channels) : Channels :=
  match configmapToConfig toml cm with
  | .ok (some config) => { s with config := some config }
  | .ok none => { s with config := none }
  | .error _ => s

def applyEvent (toml : TomlLibrary) (s : Channels) : WatchEvent ConfigMap → Channels
  | .apply cm | .initApply cm => pushParsed toml cm s
  | .delete _ => { s with config := none }
  | .init => s
  | .initDone => { s with synced := true }

/-- The watch is narrowed to one name, so there is one key. -/
abbrev ConfigTrace := WatchTrace Unit ConfigMap

section Arming

variable (toml : TomlLibrary)

def armed (t : ConfigTrace) : Option Config := (consumed (applyEvent toml) ⟨none, false⟩ t).config

/-- The last well-formed config seen since the ConfigMap was last absent. -/
def lastGood : ConfigTrace → Option Config
  | [] => none
  | .remove _ :: _ | .told (.delete _) :: _ => none
  | .told (.apply cm) :: t | .told (.initApply cm) :: t =>
      match configmapToConfig toml cm with
      | .ok (some config) => some config
      | .ok none | .error _ => lastGood t
  | .put _ :: t | .broke :: t | .told .init :: t | .told .initDone :: t => lastGood t

def wanted (t : ConfigTrace) : Option ConfigMap → Option Config
  | none => none
  | some cm =>
      match configmapToConfig toml cm with
      | .ok config => config
      | .error _ => lastGood toml t

/-- The ConfigMap was removed unseen while the agent was armed, and none could be read since. -/
def outlived : ConfigTrace → Bool
  | [] => false
  | .remove _ :: t => (armed toml t).isSome
  | .told (.delete _) :: _ => false
  | .told (.apply cm) :: t | .told (.initApply cm) :: t =>
      match configmapToConfig toml cm with
      | .ok _ => false
      | .error _ => outlived t
  | .put _ :: t | .broke :: t | .told .init :: t | .told .initDone :: t => outlived t

/-- After a well-formed config one without the key was seen, and none with it could be read since. -/
def disarmed : ConfigTrace → Bool
  | [] => false
  | .remove _ :: _ | .told (.delete _) :: _ => false
  | .told (.apply cm) :: t | .told (.initApply cm) :: t =>
      match configmapToConfig toml cm with
      | .ok (some _) => false
      | .ok none => (lastGood toml t).isSome
      | .error _ => disarmed t
  | .put _ :: t | .broke :: t | .told .init :: t | .told .initDone :: t => disarmed t

variable {toml}

inductive Standing : Option Config → Option Config → Bool → Bool → Prop where
  | outlived {config : Config} : Standing (some config) none true false
  | disarmed {config : Config} : Standing none (some config) false true
  | same {config : Option Config} : Standing config config false false

theorem Standing.eq_iff {config good : Option Config} {out dis : Bool}
    (h : Standing config good out dis) : config = good ↔ out = false ∧ dis = false := by
  cases h <;> simp

theorem config_pushParsed (cm : ConfigMap) (s : Channels) :
    (pushParsed toml cm s).config = (configmapToConfig toml cm).toOption.getD s.config := by
  unfold pushParsed
  rcases configmapToConfig toml cm with e | _ | config <;> rfl

theorem standing_delivered (cm : ConfigMap) {t : ConfigTrace} {event : WatchEvent ConfigMap}
    (hevent : event = .apply cm ∨ event = .initApply cm)
    (h : Standing (armed toml t) (lastGood toml t) (outlived toml t) (disarmed toml t)) :
    Standing (armed toml (.told event :: t)) (lastGood toml (.told event :: t))
      (outlived toml (.told event :: t)) (disarmed toml (.told event :: t)) := by
  have harmed : armed toml (.told event :: t) =
      (configmapToConfig toml cm).toOption.getD (armed toml t) := by
    rcases hevent with rfl | rfl <;> exact config_pushParsed cm _
  rw [harmed]
  rcases hconfig : configmapToConfig toml cm with e | _ | config
  · rcases hevent with rfl | rfl <;>
      simpa [lastGood, outlived, disarmed, hconfig, Except.toOption] using h
  · have hgood : Standing none (lastGood toml t) false (lastGood toml t).isSome := by
      cases lastGood toml t with
      | none => exact .same
      | some good => exact .disarmed
    rcases hevent with rfl | rfl <;>
      simpa [lastGood, outlived, disarmed, hconfig, Except.toOption] using hgood
  · have hsame : Standing (some config) (some config) false false := .same
    rcases hevent with rfl | rfl <;>
      simpa [lastGood, outlived, disarmed, hconfig, Except.toOption] using hsame

theorem standing (t : ConfigTrace) :
    Standing (armed toml t) (lastGood toml t) (outlived toml t) (disarmed toml t) := by
  induction t with
  | nil => exact .same
  | cons s t ih =>
    cases s with
    | put | broke => exact ih
    | remove =>
      have hkept : Standing (armed toml t) none (armed toml t).isSome false := by
        cases armed toml t with
        | none => exact .same
        | some config => exact .outlived
      exact hkept
    | told event =>
      cases event with
      | init | initDone => exact ih
      | delete => exact .same
      | apply cm => exact standing_delivered cm (.inl rfl) ih
      | initApply cm => exact standing_delivered cm (.inr rfl) ih

section Run

variable {t : ConfigTrace} {w : Watched Unit ConfigMap}

theorem lastGood_of_absent (hrun : WatchRun (fun _ => ()) t w) (habsent : w.live () = none) :
    lastGood toml t = none := by
  induction hrun with
  | start => rfl
  | step hrun hstep ih =>
    cases hstep with
    | put | apply => simp at habsent
    | remove | delete => rfl
    | broke | init | initDone => exact ih habsent
    | @initApply live cm pending =>
      have hlive : live () = some cm := hrun.pending_live rfl List.mem_cons_self
      simp [hlive] at habsent

theorem mirrors_applyEvent : Mirrors (fun _ => ()) (applyEvent toml) (fun s _ => s.config)
    fun cm => (configmapToConfig toml cm).toOption := by
  have hpush : ∀ cm s, (fun _ : Unit => (pushParsed toml cm s).config) =
      absorb (fun _ => s.config) () (configmapToConfig toml cm).toOption := by
    intro cm s
    funext _
    rw [config_pushParsed]
    cases configmapToConfig toml cm <;> rfl
  exact
    { init := fun _ => rfl
      initApply := fun s cm => hpush cm s
      initDone := fun _ => rfl
      apply := fun s cm => hpush cm s
      delete := fun _ _ => rfl }

end Run

variable (toml)

/--
After a completed listing and after every later event the agent is armed as it should be exactly when
the ConfigMap there is can be read, or nothing that went unseen or without the key has come between the
agent and the last well-formed config.
-/
theorem armed_as_wanted_iff (t : ConfigTrace) (w : Watched Unit ConfigMap)
    (hrun : WatchRun (fun _ => ()) t w) (hwatching : w.phase = .watching) :
    armed toml t = wanted toml t (w.live ()) ↔
      (∃ cm config, w.live () = some cm ∧ configmapToConfig toml cm = .ok config) ∨
        outlived toml t = false ∧ disarmed toml t = false := by
  cases hlive : w.live () with
  | none =>
    have hwanted : wanted toml t none = lastGood toml t := (lastGood_of_absent hrun hlive).symm
    rw [hwanted, (standing t).eq_iff]
    simp
  | some cm =>
    cases hconfig : configmapToConfig toml cm with
    | ok config =>
      have hread : armed toml t = config :=
        mirrors_applyEvent.knows_of_live hrun hwatching hlive (by simp [hconfig, Except.toOption])
      simp [wanted, hconfig, hread]
    | error e =>
      rw [wanted, hconfig, (standing t).eq_iff]
      simp [hconfig]

end Arming

section Sample

def sampleConfigMap : ConfigMap :=
  ⟨some [( reclaimConfigDataKey, renderReclaimToml sampleToml ["idea"])]⟩

def sampleArmed : ConfigTrace :=
  [.told .initDone, .told (.initApply sampleConfigMap), .told .init, .put sampleConfigMap]

theorem sampleArmed_run : WatchRun (fun _ => ()) sampleArmed
    ⟨Function.update (fun _ => none) () (some sampleConfigMap), .watching⟩ := by
  have hput : WatchRun (fun _ => ()) [.put sampleConfigMap] _ :=
    WatchRun.start.step (.put sampleConfigMap)
  exact ((hput.step (.init (lists_singleton _ sampleConfigMap))).step .initApply).step .initDone

theorem armed_as_wanted_sample :
    armed sampleToml sampleArmed = wanted sampleToml sampleArmed (some sampleConfigMap) :=
  (armed_as_wanted_iff sampleToml sampleArmed _ sampleArmed_run rfl).mpr
    (.inl ⟨sampleConfigMap, _, rfl, rfl⟩)

/-- The ConfigMap is deleted while the connection is down, and the next listing is empty. -/
def sampleOutlived : ConfigTrace :=
  .told .initDone :: .told .init :: .remove () :: .broke :: sampleArmed

theorem armed_after_unseen_delete :
    WatchRun (fun _ => ()) sampleOutlived ⟨fun _ => none, .watching⟩ ∧
      armed sampleToml sampleOutlived = some ⟨["idea"], [], 250⟩ ∧
      wanted sampleToml sampleOutlived none = none := by
  refine ⟨?_, by decide +kernel, rfl⟩
  have hremoved := (sampleArmed_run.step .broke).step (.remove ())
  have hnone : Function.update (Function.update (fun _ => none) () (some sampleConfigMap)) () none =
      fun _ => none := by
    simp
  rw [hnone] at hremoved
  exact (hremoved.step (.init lists_nil)).step .initDone

end Sample

end FiveSpot.Reclaim
