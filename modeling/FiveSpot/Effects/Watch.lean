import Mathlib.Logic.Function.Basic
import Mathlib.Tactic.Common

/-!
# Watching a collection

A watcher tells its consumer about a collection of objects that others change. While it is connected
it reports each change. When the connection is lost, changes go unseen; on reconnecting it lists what
is there then, one object at a time, and says when the list is complete. An object that was removed in
the meantime is not mentioned again.

Time is the watcher's: a change that it has still to be told of has not happened yet.
-/

namespace FiveSpot.Effects

set_option autoImplicit false

inductive WatchEvent (Obj : Type) where
  | init
  | initApply (obj : Obj)
  | initDone
  | apply (obj : Obj)
  | delete (obj : Obj)

inductive WatchPhase (Obj : Type) where
  | lost
  | listing (pending : List Obj)
  | watching

structure Watched (Key Obj : Type) where
  live : Key → Option Obj
  phase : WatchPhase Obj

/-- What happens next: a change that goes unseen, a loss of the connection, or an event. -/
inductive WatchStep (Key Obj : Type) where
  | put (obj : Obj)
  | remove (key : Key)
  | broke
  | told (event : WatchEvent Obj)

variable {Key Obj : Type}

structure Lists (ref : Obj → Key) (live : Key → Option Obj) (objs : List Obj) : Prop where
  nodup : objs.Nodup
  mem_iff : ∀ obj, obj ∈ objs ↔ live (ref obj) = some obj

theorem lists_nil {ref : Obj → Key} : Lists ref (fun _ => none) [] where
  nodup := List.nodup_nil
  mem_iff := by simp

variable [DecidableEq Key]

theorem lists_singleton (ref : Obj → Key) (obj : Obj) :
    Lists ref (Function.update (fun _ => none) (ref obj) (some obj)) [obj] where
  nodup := by simp
  mem_iff obj' := by
    rw [List.mem_singleton]
    constructor
    · rintro rfl
      exact Function.update_self _ _ _
    · intro hlive
      by_cases hkey : ref obj' = ref obj
      · rw [hkey, Function.update_self] at hlive
        exact (Option.some.inj hlive).symm
      · rw [Function.update_of_ne hkey] at hlive
        cases hlive

/-- The protocol: which step can be taken where. -/
inductive Follows (ref : Obj → Key) : Watched Key Obj → WatchStep Key Obj → Watched Key Obj → Prop where
  | put {live : Key → Option Obj} (obj : Obj) :
      Follows ref ⟨live, .lost⟩ (.put obj) ⟨Function.update live (ref obj) (some obj), .lost⟩
  | remove {live : Key → Option Obj} (key : Key) :
      Follows ref ⟨live, .lost⟩ (.remove key) ⟨Function.update live key none, .lost⟩
  | broke {live : Key → Option Obj} {phase : WatchPhase Obj} :
      Follows ref ⟨live, phase⟩ .broke ⟨live, .lost⟩
  | init {live : Key → Option Obj} {objs : List Obj} : Lists ref live objs →
      Follows ref ⟨live, .lost⟩ (.told .init) ⟨live, .listing objs⟩
  | initApply {live : Key → Option Obj} {obj : Obj} {objs : List Obj} :
      Follows ref ⟨live, .listing (obj :: objs)⟩ (.told (.initApply obj)) ⟨live, .listing objs⟩
  | initDone {live : Key → Option Obj} :
      Follows ref ⟨live, .listing []⟩ (.told .initDone) ⟨live, .watching⟩
  | apply {live : Key → Option Obj} (obj : Obj) :
      Follows ref ⟨live, .watching⟩ (.told (.apply obj))
        ⟨Function.update live (ref obj) (some obj), .watching⟩
  | delete {live : Key → Option Obj} {obj : Obj} : live (ref obj) ≠ none →
      Follows ref ⟨live, .watching⟩ (.told (.delete obj))
        ⟨Function.update live (ref obj) none, .watching⟩

abbrev WatchTrace (Key Obj : Type) := List (WatchStep Key Obj)

inductive WatchRun (ref : Obj → Key) : WatchTrace Key Obj → Watched Key Obj → Prop where
  | start : WatchRun ref [] ⟨fun _ => none, .lost⟩
  | step {t : WatchTrace Key Obj} {w w' : Watched Key Obj} {s : WatchStep Key Obj} :
      WatchRun ref t w → Follows ref w s w' → WatchRun ref (s :: t) w'

/-- The state of a consumer that takes the events in turn. -/
def consumed {σ : Type} (handle : σ → WatchEvent Obj → σ) (start : σ) : WatchTrace Key Obj → σ
  | [] => start
  | .told event :: t => handle (consumed handle start t) event
  | _ :: t => consumed handle start t

section Collection

variable {ref : Obj → Key} {t : WatchTrace Key Obj} {w : Watched Key Obj}

def Keyed (ref : Obj → Key) (live : Key → Option Obj) : Prop :=
  ∀ key obj, live key = some obj → ref obj = key

theorem Keyed.put {live : Key → Option Obj} (h : Keyed ref live) (obj : Obj) :
    Keyed ref (Function.update live (ref obj) (some obj)) := by
  intro key obj' hlive
  by_cases hkey : key = ref obj
  · rw [hkey, Function.update_self] at hlive
    rw [hkey, Option.some.inj hlive]
  · rw [Function.update_of_ne hkey] at hlive
    exact h key obj' hlive

theorem Keyed.remove {live : Key → Option Obj} (h : Keyed ref live) (key : Key) :
    Keyed ref (Function.update live key none) := by
  intro key' obj hlive
  by_cases hkey : key' = key
  · rw [hkey, Function.update_self] at hlive
    cases hlive
  · rw [Function.update_of_ne hkey] at hlive
    exact h key' obj hlive

theorem WatchRun.keyed (hrun : WatchRun ref t w) : Keyed ref w.live := by
  induction hrun with
  | start => intro key obj hlive; cases hlive
  | step _ hstep ih =>
    cases hstep with
    | put obj | apply obj => exact Keyed.put ih obj
    | remove key => exact Keyed.remove ih key
    | @delete _ obj _ => exact Keyed.remove ih (ref obj)
    | broke | init | initApply | initDone => exact ih

theorem WatchRun.pending_live (hrun : WatchRun ref t w) {pending : List Obj}
    (hphase : w.phase = .listing pending) {obj : Obj} (hobj : obj ∈ pending) :
    w.live (ref obj) = some obj := by
  induction hrun generalizing pending with
  | start => cases hphase
  | step _ hstep ih =>
    cases hstep with
    | init hlists =>
      cases hphase
      exact (hlists.mem_iff obj).mp hobj
    | initApply =>
      cases hphase
      exact ih rfl (List.mem_cons_of_mem _ hobj)
    | put | remove | broke | initDone | apply | delete => cases hphase

end Collection

section Mirror

variable {σ β : Type}

def absorb (known : Key → Option β) (key : Key) : Option (Option β) → Key → Option β
  | some value => Function.update known key value
  | none => known

theorem absorb_of_ne {known : Key → Option β} {key key' : Key} (hkey : key' ≠ key)
    (value : Option (Option β)) : absorb known key value key' = known key' := by
  cases value with
  | none => rfl
  | some value => exact Function.update_of_ne hkey value known

/-- A consumer that keeps, per key, what it could last read from an object it was told of. -/
structure Mirrors (ref : Obj → Key) (handle : σ → WatchEvent Obj → σ) (knows : σ → Key → Option β)
    (read : Obj → Option (Option β)) : Prop where
  init : ∀ s, knows (handle s .init) = knows s
  initApply : ∀ s obj, knows (handle s (.initApply obj)) = absorb (knows s) (ref obj) (read obj)
  initDone : ∀ s, knows (handle s .initDone) = knows s
  apply : ∀ s obj, knows (handle s (.apply obj)) = absorb (knows s) (ref obj) (read obj)
  delete : ∀ s obj, knows (handle s (.delete obj)) = Function.update (knows s) (ref obj) none

/-- The keys that were removed unseen while the consumer knew them, and have not come back since. -/
def missed (ref : Obj → Key) (handle : σ → WatchEvent Obj → σ) (knows : σ → Key → Option β)
    (start : σ) : WatchTrace Key Obj → Key → Bool
  | [] => fun _ => false
  | .put obj :: t => Function.update (missed ref handle knows start t) (ref obj) false
  | .remove key :: t =>
      Function.update (missed ref handle knows start t) key
        (knows (consumed handle start t) key).isSome
  | .told (.apply obj) :: t | .told (.delete obj) :: t =>
      Function.update (missed ref handle knows start t) (ref obj) false
  | .told .init :: t | .told (.initApply _) :: t | .told .initDone :: t | .broke :: t =>
      missed ref handle knows start t

variable {ref : Obj → Key} {handle : σ → WatchEvent Obj → σ} {knows : σ → Key → Option β}
  {read : Obj → Option (Option β)} {start : σ} {t : WatchTrace Key Obj} {w : Watched Key Obj}

/-- Of what is not there the consumer knows exactly what it missed the removal of. -/
theorem Mirrors.knows_of_gone (hmirrors : Mirrors ref handle knows read)
    (hstart : ∀ key, knows start key = none) (hrun : WatchRun ref t w) {key : Key}
    (hgone : w.live key = none) :
    (knows (consumed handle start t) key).isSome = missed ref handle knows start t key := by
  induction hrun with
  | start => simp [consumed, missed, hstart]
  | step hrun hstep ih =>
    cases hstep with
    | put obj =>
      have hkey : key ≠ ref obj := by rintro rfl; simp at hgone
      simp only [Function.update_of_ne hkey] at hgone
      simpa [consumed, missed, Function.update_of_ne hkey] using ih hgone
    | remove key' =>
      by_cases hkey : key = key'
      · simp [consumed, missed, hkey]
      · simp only [Function.update_of_ne hkey] at hgone
        simpa [consumed, missed, Function.update_of_ne hkey] using ih hgone
    | broke => simpa [consumed, missed] using ih hgone
    | init => simpa [consumed, missed, hmirrors.init] using ih hgone
    | @initApply live obj objs =>
      have hlive : live (ref obj) = some obj := hrun.pending_live rfl List.mem_cons_self
      have hkey : key ≠ ref obj := by rintro rfl; simp [hlive] at hgone
      simpa [consumed, missed, hmirrors.initApply, absorb_of_ne hkey] using ih hgone
    | initDone => simpa [consumed, missed, hmirrors.initDone] using ih hgone
    | apply obj =>
      have hkey : key ≠ ref obj := by rintro rfl; simp at hgone
      simp only [Function.update_of_ne hkey] at hgone
      simpa [consumed, missed, hmirrors.apply, absorb_of_ne hkey, Function.update_of_ne hkey] using
        ih hgone
    | @delete _ obj _ =>
      by_cases hkey : key = ref obj
      · simp [consumed, missed, hmirrors.delete, hkey]
      · simp only [Function.update_of_ne hkey] at hgone
        simpa [consumed, missed, hmirrors.delete, Function.update_of_ne hkey] using ih hgone

theorem WatchRun.gone_of_missed (hrun : WatchRun ref t w) {key : Key}
    (hmissed : missed ref handle knows start t key = true) : w.live key = none := by
  induction hrun with
  | start => simp [missed] at hmissed
  | step _ hstep ih =>
    cases hstep with
    | put obj | apply obj =>
      by_cases hkey : key = ref obj
      · simp [missed, hkey] at hmissed
      · simpa [Function.update_of_ne hkey] using
          ih (by simpa [missed, Function.update_of_ne hkey] using hmissed)
    | remove key' =>
      by_cases hkey : key = key'
      · simp [hkey]
      · simpa [Function.update_of_ne hkey] using
          ih (by simpa [missed, Function.update_of_ne hkey] using hmissed)
    | @delete _ obj _ =>
      by_cases hkey : key = ref obj
      · simp [hkey]
      · simpa [Function.update_of_ne hkey] using
          ih (by simpa [missed, Function.update_of_ne hkey] using hmissed)
    | broke | init | initApply | initDone => exact ih hmissed

/-- Right about the objects it can read, except those that a listing has still to come to. -/
def Informed (ref : Obj → Key) (read : Obj → Option (Option β)) (known : Key → Option β)
    (w : Watched Key Obj) : Prop :=
  match w.phase with
  | .lost => True
  | .listing pending => ∀ obj value, w.live (ref obj) = some obj → read obj = some value →
      known (ref obj) = value ∨ obj ∈ pending
  | .watching => ∀ obj value, w.live (ref obj) = some obj → read obj = some value →
      known (ref obj) = value

theorem Mirrors.informed (hmirrors : Mirrors ref handle knows read) (hrun : WatchRun ref t w) :
    Informed ref read (knows (consumed handle start t)) w := by
  induction hrun with
  | start => trivial
  | @step t w w' s hrun hstep ih =>
    cases hstep with
    | put | remove | broke => trivial
    | @init live objs hlists =>
      intro obj value hlive _
      exact .inr ((hlists.mem_iff obj).mpr hlive)
    | @initApply live obj objs =>
      intro obj' value hlive hread
      rw [consumed, hmirrors.initApply]
      by_cases hkey : ref obj' = ref obj
      · have hsame : live (ref obj) = some obj := hrun.pending_live rfl List.mem_cons_self
        have hobj : obj' = obj := by
          rw [← hkey, show live (ref obj') = some obj' from hlive] at hsame
          exact Option.some.inj hsame
        subst hobj
        exact .inl (by simp [hread, absorb])
      · rw [absorb_of_ne hkey]
        refine (ih obj' value hlive hread).imp_right fun hmem => ?_
        rcases List.mem_cons.mp hmem with rfl | hmem
        · exact absurd rfl hkey
        · exact hmem
    | initDone =>
      intro obj value hlive hread
      rw [consumed, hmirrors.initDone]
      exact (ih obj value hlive hread).resolve_right List.not_mem_nil
    | apply obj =>
      intro obj' value hlive hread
      rw [consumed, hmirrors.apply]
      by_cases hkey : ref obj' = ref obj
      · simp only [hkey, Function.update_self, Option.some.injEq] at hlive
        subst hlive
        simp [hread, absorb]
      · simp only [Function.update_of_ne hkey] at hlive
        rw [absorb_of_ne hkey]
        exact ih obj' value hlive hread
    | @delete _ obj _ =>
      intro obj' value hlive hread
      rw [consumed, hmirrors.delete]
      have hkey : ref obj' ≠ ref obj := by
        intro hkey
        simp [hkey] at hlive
      simp only [Function.update_of_ne hkey] at hlive ⊢
      exact ih obj' value hlive hread

/-- Once a listing is complete, the consumer is right about every object it can read. -/
theorem Mirrors.knows_of_live (hmirrors : Mirrors ref handle knows read) (hrun : WatchRun ref t w)
    (hwatching : w.phase = .watching) {key : Key} {obj : Obj} {value : Option β}
    (hlive : w.live key = some obj) (hread : read obj = some value) :
    knows (consumed handle start t) key = value := by
  have hinformed : Informed ref read (knows (consumed handle start t)) w := hmirrors.informed hrun
  rw [Informed, hwatching] at hinformed
  obtain rfl : ref obj = key := hrun.keyed key obj hlive
  exact hinformed obj value hlive hread

/-- A consumer that can read every object is right about every key but those it missed. -/
theorem Mirrors.knows_eq_iff {extract : Obj → Option β}
    (hmirrors : Mirrors ref handle knows fun obj => some (extract obj))
    (hstart : ∀ key, knows start key = none) (hrun : WatchRun ref t w)
    (hwatching : w.phase = .watching) (key : Key) :
    knows (consumed handle start t) key = (w.live key).bind extract ↔
      missed ref handle knows start t key = false := by
  cases hlive : w.live key with
  | none =>
    rw [← hmirrors.knows_of_gone hstart hrun hlive]
    simp
  | some obj =>
    have hseen : missed ref handle knows start t key = false := by
      by_contra hmissed
      have hgone : w.live key = none := hrun.gone_of_missed (Bool.not_eq_false _ ▸ hmissed)
      rw [hgone] at hlive
      cases hlive
    simp [hmirrors.knows_of_live hrun hwatching hlive rfl, hseen]

end Mirror

end FiveSpot.Effects
