import FiveSpot.Effects.Trace
import FiveSpot.Machine.Reconcile
import Mathlib.Algebra.Group.Nat.Defs

/-!
# The delay after a failed reconcile

`error_policy` counts the failures of each resource and derives the delay of the next attempt from
the count; `reconcile_guarded` clears the count when the reconcile proper succeeds. Here the table of
counts is followed through any sequence of reconciles of any resources.
-/

namespace FiveSpot.Machine

set_option autoImplicit false

open Effects Effects.Prog

section Counting

def maxReconcileRetries : Nat := 10

def maxBackoffSecs : Nat := 300

def u32Max : Nat := UInt32.size - 1

def u64Max : Nat := UInt64.size - 1

/-- `compute_backoff_secs`; the shift is one of 64 bits. -/
def computeBackoffSecs (retryCount : Nat) : Nat :=
  if maxReconcileRetries ≤ retryCount then maxBackoffSecs
  else
    let factor := (1 <<< min retryCount 63) % UInt64.size
    let backoff := min (errorRequeueSecs * factor) u64Max
    min backoff maxBackoffSecs

/-- `Context::retry_counts`: a map behind a lock, which a panic would poison. -/
structure RetryCounts where
  counts : String → Option Nat
  poisoned : Bool

def RetryCounts.new : RetryCounts := ⟨fun _ => none, false⟩

def RetryCounts.insert (retryCounts : RetryCounts) (key : String) (count : Nat) : RetryCounts :=
  { retryCounts with counts := fun k => if k = key then some count else retryCounts.counts k }

def RetryCounts.remove (retryCounts : RetryCounts) (key : String) : RetryCounts :=
  { retryCounts with counts := fun k => if k = key then none else retryCounts.counts k }

theorem RetryCounts.counts_insert (retryCounts : RetryCounts) (key k : String) (count : Nat) :
    (retryCounts.insert key count).counts k = if k = key then some count else retryCounts.counts k := rfl

theorem RetryCounts.counts_remove (retryCounts : RetryCounts) (key k : String) :
    (retryCounts.remove key).counts k = if k = key then none else retryCounts.counts k := rfl

def retryKey (ns name : String) : String := ns ++ "/" ++ name

def errorPolicy (resource : ScheduledMachine) (retryCounts : RetryCounts) : Action × RetryCounts :=
  if retryCounts.poisoned then (.requeue errorRequeueSecs, retryCounts)
  else
    let key := retryKey (resource.ns.getD "") resource.name
    let count := min ((retryCounts.counts key).getD 0 + 1) u32Max
    (.requeue (computeBackoffSecs count), retryCounts.insert key count)

/-- The end of `reconcile_guarded`: a lock that is poisoned is passed over. -/
def clearRetries (ns name : String) (retryCounts : RetryCounts) : RetryCounts :=
  if retryCounts.poisoned then retryCounts else retryCounts.remove (retryKey ns name)

/-- `reconcile_guarded`, and whether it clears the count of the resource as it ends. -/
def reconcileGuardedClearing (settings : Settings) (resource : ScheduledMachine) (ns : String) :
    Prog Request Response (Except ReconcilerError Action × Bool) := do
  let leads ← perform .isLeader
  if !leads then return (.ok .awaitChange, false)
  else if !shouldProcessResource resource.name ns resource.spec.priority settings.instanceCount
      settings.instanceId then return (.ok .awaitChange, false)
  else if resource.deletionTimestamp.isSome then
    let result ← (handleDeletion settings resource).run
    return (result, false)
  else if !hasFinalizer resource then
    let result ← (addFinalizer resource).run
    return (result, false)
  else
    let result ← (reconcileInner settings resource).run
    return (result, result.isOk)

def reconcileClearing (settings : Settings) (resource : ScheduledMachine) :
    Prog Request Response (Except ReconcilerError Action × Bool) :=
  match resource.ns with
  | none => return (.error (.invalidConfig "ScheduledMachine must be namespaced"), false)
  | some ns => reconcileGuardedClearing settings resource ns

theorem bind_result (p : Prog Request Response (Except ReconcilerError Action))
    (clears : Except ReconcilerError Action → Bool) :
    ((p >>= fun result => .pure (result, clears result)) >>= fun ended => .pure ended.1) = p := by
  induction p with
  | pure result => rfl
  | call op k ih => exact congrArg (Prog.call op) (funext ih)

theorem reconcileClearing_fst (settings : Settings) (resource : ScheduledMachine) :
    (reconcileClearing settings resource >>= fun ended => .pure ended.1) =
      (reconcileScheduledMachine settings resource).run := by
  unfold reconcileClearing reconcileScheduledMachine namespaceOf
  cases resource.ns with
  | none => rfl
  | some ns =>
    refine congrArg (Prog.call Request.isLeader) (funext fun leads => ?_)
    cases leads with
    | false => rfl
    | true =>
      dsimp only
      split
      · rfl
      split
      · exact bind_result _ _
      split
      · exact bind_result _ _
      · exact bind_result _ _

theorem performs_reconcile_iff {settings : Settings} {resource : ScheduledMachine}
    {calls : Trace Request Response} {result : Except ReconcilerError Action} :
    (reconcileScheduledMachine settings resource).run.Performs calls result ↔
      ∃ clears, (reconcileClearing settings resource).Performs calls (result, clears) := by
  rw [← reconcileClearing_fst, performs_bind_iff]
  constructor
  · rintro ⟨⟨_, clears⟩, calls, _, rfl, hended, rfl, rfl⟩
    rw [List.append_nil]
    exact ⟨clears, hended⟩
  · rintro ⟨clears, hended⟩
    exact ⟨(result, clears), calls, [], (List.append_nil calls).symm, hended, rfl, rfl⟩

end Counting

section Runs

/-- What names a resource; a namespace has no slash in it. -/
structure ResourceId where
  ns : String
  name : String
  plain : '/' ∉ ns.toList
  deriving DecidableEq

def ResourceId.key (id : ResourceId) : String := retryKey id.ns id.name

theorem ResourceId.splitOnce_key (id : ResourceId) :
    Text.splitOnce '/' id.key = some (id.ns, id.name) :=
  Text.splitOnce_eq_some_iff.mpr ⟨rfl, id.plain⟩

theorem ResourceId.key_inj {id id' : ResourceId} : id.key = id'.key ↔ id = id' := by
  refine ⟨fun h => ?_, congrArg key⟩
  have hsplit := id.splitOnce_key
  rw [h, id'.splitOnce_key] at hsplit
  obtain ⟨ns, name, plain⟩ := id
  cases hsplit
  rfl

/-- A reconcile of a resource that has come to its end, with a result that the code can give. -/
structure Attempt where
  settings : Settings
  resource : ScheduledMachine
  plain : '/' ∉ (resource.ns.getD "").toList
  calls : Trace Request Response
  result : Except ReconcilerError Action
  clears : Bool
  performed : (reconcileClearing settings resource).Performs calls (result, clears)

namespace Attempt

def id (a : Attempt) : ResourceId := ⟨a.resource.ns.getD "", a.resource.name, a.plain⟩

def finish (a : Attempt) (retryCounts : RetryCounts) : Action × RetryCounts :=
  match a.result with
  | .ok action =>
      (action, if a.clears then clearRetries (a.resource.ns.getD "") a.resource.name retryCounts
        else retryCounts)
  | .error _ => errorPolicy a.resource retryCounts

end Attempt

def countsAfter : List Attempt → RetryCounts
  | [] => .new
  | a :: earlier => (a.finish (countsAfter earlier)).2

def failuresSince (ends : Attempt → Bool) (id : ResourceId) : List Attempt → Nat
  | [] => 0
  | a :: earlier =>
      if a.id = id then
        if ends a then 0
        else if a.result.isOk then failuresSince ends id earlier
        else failuresSince ends id earlier + 1
      else failuresSince ends id earlier

def consecutiveFailures : ResourceId → List Attempt → Nat := failuresSince fun a => a.result.isOk

def uncleared : ResourceId → List Attempt → Nat := failuresSince fun a => a.result.isOk && a.clears

/-- The delay doubles from the first up to the cap. -/
def cappedDelay (doublings : Nat) : Nat := min (errorRequeueSecs * 2 ^ doublings) maxBackoffSecs

def documentedDelay (k : Nat) : Nat := cappedDelay (k - 1)

theorem cappedDelay_of_le {n : Nat} (h : 4 ≤ n) : cappedDelay n = maxBackoffSecs := by
  have hpow : 2 ^ 4 ≤ 2 ^ n := Nat.pow_le_pow_right (by decide) h
  unfold cappedDelay errorRequeueSecs maxBackoffSecs
  omega

/-- No shift overflows and no product is cut off: the delay is the capped one for every count. -/
theorem computeBackoffSecs_eq (n : Nat) : computeBackoffSecs n = cappedDelay n := by
  unfold computeBackoffSecs
  split
  · rename_i h
    exact (cappedDelay_of_le (Nat.le_trans (by decide) h)).symm
  · rename_i h
    have hsmall : ∀ m < 10, computeBackoffSecs m = cappedDelay m := by decide
    rw [← hsmall n (Nat.not_le.mp h), computeBackoffSecs, if_neg h]

theorem computeBackoffSecs_saturated (n : Nat) : computeBackoffSecs (min n u32Max) = cappedDelay n := by
  rw [computeBackoffSecs_eq]
  rcases Nat.le_total n u32Max with h | h
  · rw [Nat.min_eq_left h]
  · have hmax : 4 ≤ u32Max := by decide
    rw [Nat.min_eq_right h, cappedDelay_of_le hmax, cappedDelay_of_le (Nat.le_trans hmax h)]

/-- What the table has for each resource is its own failures since it was cleared. -/
structure CountsOf (retryCounts : RetryCounts) (attempts : List Attempt) : Prop where
  unpoisoned : retryCounts.poisoned = false
  counts : ∀ id : ResourceId, (retryCounts.counts id.key).getD 0 = min (uncleared id attempts) u32Max

theorem countsOf_new : CountsOf .new [] := ⟨rfl, fun _ => (Nat.zero_min u32Max).symm⟩

variable {retryCounts : RetryCounts} {attempts : List Attempt} {a : Attempt}

theorem uncleared_cons_of_ne {id : ResourceId} (h : a.id ≠ id) :
    uncleared id (a :: attempts) = uncleared id attempts := if_neg h

theorem uncleared_cons_error {e : ReconcilerError} (hresult : a.result = .error e) :
    uncleared a.id (a :: attempts) = uncleared a.id attempts + 1 := by
  simp [uncleared, failuresSince, hresult, Except.isOk, Except.toBool]

theorem uncleared_cons_ok {action : Action} (hresult : a.result = .ok action) :
    uncleared a.id (a :: attempts) = if a.clears then 0 else uncleared a.id attempts := by
  simp [uncleared, failuresSince, hresult, Except.isOk, Except.toBool]

theorem finish_error {e : ReconcilerError} (hresult : a.result = .error e)
    (h : CountsOf retryCounts attempts) : a.finish retryCounts =
      (.requeue (cappedDelay (uncleared a.id (a :: attempts))),
        retryCounts.insert a.id.key (min (uncleared a.id (a :: attempts)) u32Max)) := by
  have hcount : min ((retryCounts.counts a.id.key).getD 0 + 1) u32Max =
      min (uncleared a.id (a :: attempts)) u32Max := by
    rw [h.counts, uncleared_cons_error hresult]
    omega
  have hpolicy : errorPolicy a.resource retryCounts =
      (.requeue (computeBackoffSecs (min ((retryCounts.counts a.id.key).getD 0 + 1) u32Max)),
        retryCounts.insert a.id.key (min ((retryCounts.counts a.id.key).getD 0 + 1) u32Max)) :=
    if_neg (by simp [h.unpoisoned])
  rw [Attempt.finish, hresult, hpolicy, hcount, computeBackoffSecs_saturated]

theorem finish_ok {action : Action} (hresult : a.result = .ok action)
    (hunpoisoned : retryCounts.poisoned = false) : a.finish retryCounts =
      (action, if a.clears then retryCounts.remove a.id.key else retryCounts) := by
  have hclear : clearRetries (a.resource.ns.getD "") a.resource.name retryCounts =
      retryCounts.remove a.id.key := if_neg (by simp [hunpoisoned])
  rw [Attempt.finish, hresult, hclear]

theorem CountsOf.finish (h : CountsOf retryCounts attempts) :
    CountsOf (a.finish retryCounts).2 (a :: attempts) := by
  cases hresult : a.result with
  | error e =>
    rw [finish_error hresult h]
    refine ⟨h.unpoisoned, fun id => ?_⟩
    dsimp only
    rw [RetryCounts.counts_insert]
    by_cases hid : id = a.id
    · rw [hid, if_pos rfl, Option.getD_some]
    · rw [if_neg (mt ResourceId.key_inj.mp hid), uncleared_cons_of_ne (Ne.symm hid), h.counts]
  | ok action =>
    rw [finish_ok hresult h.unpoisoned]
    have hown : uncleared a.id (a :: attempts) = _ := uncleared_cons_ok hresult
    cases hclears : a.clears with
    | false =>
      rw [hclears] at hown
      refine ⟨h.unpoisoned, fun id => (h.counts id).trans ?_⟩
      by_cases hid : id = a.id
      · rw [hid, hown]
        rfl
      · rw [uncleared_cons_of_ne (Ne.symm hid)]
    | true =>
      rw [hclears] at hown
      refine ⟨h.unpoisoned, fun id => ?_⟩
      dsimp only
      rw [if_pos rfl, RetryCounts.counts_remove]
      by_cases hid : id = a.id
      · rw [hid, if_pos rfl, hown]
        exact (Nat.zero_min u32Max).symm
      · rw [if_neg (mt ResourceId.key_inj.mp hid), uncleared_cons_of_ne (Ne.symm hid), h.counts]

theorem countsOf_countsAfter (attempts : List Attempt) : CountsOf (countsAfter attempts) attempts := by
  induction attempts with
  | nil => exact countsOf_new
  | cons a earlier ih => exact ih.finish

theorem failuresSince_le {ends ends' : Attempt → Bool} (h : ∀ a, ends a = true → ends' a = true)
    (id : ResourceId) (attempts : List Attempt) :
    failuresSince ends' id attempts ≤ failuresSince ends id attempts := by
  induction attempts with
  | nil => exact Nat.le_refl 0
  | cons a earlier ih =>
    unfold failuresSince
    split
    · cases hends : ends a with
      | true => simp [h a hends]
      | false =>
        split
        · exact Nat.zero_le _
        · rw [if_neg Bool.false_ne_true]
          split
          · exact ih
          · exact Nat.succ_le_succ ih
    · exact ih

theorem consecutiveFailures_le_uncleared (id : ResourceId) (attempts : List Attempt) :
    consecutiveFailures id attempts ≤ uncleared id attempts :=
  failuresSince_le (fun _ hends => (Bool.and_eq_true_iff.mp hends).1) id attempts

theorem consecutiveFailures_pos {e : ReconcilerError} (hresult : a.result = .error e) :
    0 < consecutiveFailures a.id (a :: attempts) := by
  simp [consecutiveFailures, failuresSince, hresult, Except.isOk, Except.toBool]

theorem cappedDelay_eq_documentedDelay_iff {n k : Nat} (hk : 0 < k) (hkn : k ≤ n) :
    cappedDelay n = documentedDelay k ↔ 5 ≤ k := by
  constructor
  · intro heq
    by_contra hlt
    have hpow : 2 ^ (k - 1 + 1) ≤ 2 ^ n := Nat.pow_le_pow_right (by decide) (by omega)
    have hsmall : 2 ^ (k - 1) ≤ 2 ^ 3 := Nat.pow_le_pow_right (by decide) (by omega)
    have hpos : 0 < 2 ^ (k - 1) := Nat.pow_pos (by decide)
    rw [Nat.pow_succ] at hpow
    unfold documentedDelay cappedDelay errorRequeueSecs maxBackoffSecs at heq
    omega
  · intro h
    rw [documentedDelay, cappedDelay_of_le (by omega), cappedDelay_of_le (by omega)]

/--
A failed reconcile, one that `reconcileScheduledMachine` can perform, is tried again after the delay for
all failures of its resource since the count was cleared, which is one doubling ahead. This is the
documented delay from the fifth failure in a row on.
-/
theorem backoff_documented_iff (earlier : List Attempt) (a : Attempt) (hfailed : a.result.isOk = false) :
    (reconcileScheduledMachine a.settings a.resource).run.Performs a.calls a.result ∧
      (a.finish (countsAfter earlier)).1 = .requeue (cappedDelay (uncleared a.id (a :: earlier))) ∧
      ((a.finish (countsAfter earlier)).1 =
          .requeue (documentedDelay (consecutiveFailures a.id (a :: earlier))) ↔
        5 ≤ consecutiveFailures a.id (a :: earlier)) := by
  cases hresult : a.result with
  | ok action =>
    rw [hresult] at hfailed
    cases hfailed
  | error e =>
    rw [finish_error hresult (countsOf_countsAfter earlier)]
    refine ⟨hresult ▸ performs_reconcile_iff.mpr ⟨a.clears, a.performed⟩, rfl, ?_⟩
    rw [Action.requeue.injEq]
    exact cappedDelay_eq_documentedDelay_iff (consecutiveFailures_pos hresult)
      (consecutiveFailures_le_uncleared _ _)

def refusedMachine : ScheduledMachine :=
  { sampleWorld.machine with spec := { sampleSpec with clusterName := "" } }

def finalizerAttempt : Attempt where
  settings := sampleWorld.settings
  resource := refusedMachine
  plain := by decide
  calls := [⟨.isLeader, true⟩, ⟨.patchFinalizers [finalizerScheduledMachine], .ok ()⟩]
  result := .ok (.requeue 0)
  clears := false
  performed := ⟨true, _, rfl, .ok (), _, rfl, rfl, rfl⟩

def refusedAttempt : Attempt where
  settings := sampleWorld.settings
  resource := { refusedMachine with finalizers := some [finalizerScheduledMachine] }
  plain := by decide
  calls := [⟨.isLeader, true⟩]
  result := .error (.validationError "spec.clusterName must not be empty")
  clears := false
  performed := ⟨true, _, rfl, rfl, rfl⟩

theorem backoff_of_refused :
    (refusedAttempt.finish (countsAfter (List.replicate 4 refusedAttempt))).1 = .requeue 300 ∧
      documentedDelay 5 = 300 := by
  have hfifth : 5 ≤ consecutiveFailures refusedAttempt.id
      (refusedAttempt :: List.replicate 4 refusedAttempt) := by
    decide
  exact ⟨(backoff_documented_iff _ refusedAttempt rfl).2.2.mpr hfifth, rfl⟩

/--
The first failure waits as long as the second one should, and a success that only adds the finalizer
does not start the series anew.
-/
theorem first_failure_delayed_twice :
    (consecutiveFailures refusedAttempt.id [refusedAttempt] = 1 ∧ documentedDelay 1 = 30 ∧
        (refusedAttempt.finish (countsAfter [])).1 = .requeue 60) ∧
      consecutiveFailures refusedAttempt.id [refusedAttempt, finalizerAttempt, refusedAttempt] = 1 ∧
        (refusedAttempt.finish (countsAfter [finalizerAttempt, refusedAttempt])).1 = .requeue 120 := by
  decide +kernel

end Runs

end FiveSpot.Machine
