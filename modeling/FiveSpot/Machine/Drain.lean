import FiveSpot.Effects.Trace
import FiveSpot.Machine.Shutdown

/-!
# What a drain does to a Node

All calls of `drain_node_with_timeout`, whatever is answered and however long it takes: the cordon, the
list of pods, and then one pod after the other until one is refused or the time is up.
-/

namespace FiveSpot.Machine

set_option autoImplicit false

open Effects Effects.Prog

section Pods

variable {pod : Pod}

def Pod.Completed (pod : Pod) : Prop := pod.phase = some "Succeeded" ∨ pod.phase = some "Failed"

def Pod.DaemonOwned (pod : Pod) : Prop := "DaemonSet" ∈ pod.ownerKinds

def Pod.Evictable (pod : Pod) : Prop := ¬ pod.Completed ∧ ¬ pod.DaemonOwned

instance (pod : Pod) : Decidable pod.Evictable :=
  inferInstanceAs (Decidable (¬ (_ ∨ _) ∧ ¬ "DaemonSet" ∈ pod.ownerKinds))

theorem shouldEvictPod_eq (pod : Pod) : shouldEvictPod pod = decide pod.Evictable := by
  rw [Bool.eq_iff_iff, decide_eq_true_iff, Pod.Evictable, Pod.Completed, Pod.DaemonOwned]
  simp [shouldEvictPod]

/-- Where the delete of a pod goes; a pod that the API lists has a name and a namespace. -/
def Pod.target (client : Client) (pod : Pod) : Client × String × String :=
  (client, pod.ns.getD "default", pod.name.getD "unknown")

/-- The deletes that empty a Node of these pods. -/
def evictable (client : Client) (pods : List Pod) : List (Client × String × String) :=
  (pods.filter fun pod => pod.Evictable).map (Pod.target client)

end Pods

section Calls

structure Deletion where
  client : Client
  ns : String
  name : String
  answer : Except KubeError Unit

namespace Deletion

def target (d : Deletion) : Client × String × String := (d.client, d.ns, d.name)

/-- The pod is on its way out, or was gone already. -/
def Accepted (d : Deletion) : Prop := d.answer = .ok () ∨ ∃ e, d.answer = .error e ∧ e.isNotFound = true

def of (client : Client) (pod : Pod) (answer : Except KubeError Unit) : Deletion :=
  ⟨client, pod.ns.getD "default", pod.name.getD "unknown", answer⟩

def call (d : Deletion) : Sigma Response := ⟨.deletePod d.client d.ns d.name, d.answer⟩

end Deletion

def deletion? : Sigma Response → Option Deletion
  | ⟨.deletePod client ns name, answer⟩ => some ⟨client, ns, name, answer⟩
  | _ => none

def deletions (t : Trace Request Response) : List Deletion := t.filterMap deletion?

def cordoned (client : Client) (node : String) : Sigma Response :=
  ⟨.patchNode client node { unschedulable := some true }, .ok ()⟩

def listed (client : Client) (node : String) (pods : List Pod) : Sigma Response :=
  ⟨.listPods client node, .ok pods⟩

def expired (timeout : Nat) (start now : Instant) : Bool :=
  timeout * nanosPerSecond ≤ max 0 (now - start)

def observesTimeout (timeout : Nat) (start : Instant) : Sigma Response → Bool
  | ⟨.instant, now⟩ => expired timeout start now
  | _ => false

def inTime (timeout : Nat) (start : Instant) (t : Trace Request Response) : Trace Request Response :=
  t.takeWhile fun c => !observesTimeout timeout start c

/-- The calls before a look at the clock shows that the time is up; the first look starts the time. -/
def beforeTimeout (timeout : Nat) : Trace Request Response → Trace Request Response
  | [] => []
  | ⟨.instant, start⟩ :: t => ⟨.instant, start⟩ :: inTime timeout start t
  | c :: t => c :: beforeTimeout timeout t

@[simp] theorem deletions_instant (now : Instant) (t : Trace Request Response) :
    deletions (⟨.instant, now⟩ :: t) = deletions t := rfl

@[simp] theorem deletions_call (d : Deletion) (t : Trace Request Response) :
    deletions (d.call :: t) = d :: deletions t := rfl

theorem inTime_expired {timeout : Nat} {start now : Instant} (h : expired timeout start now = true)
    (t : Trace Request Response) : inTime timeout start (⟨.instant, now⟩ :: t) = [] :=
  List.takeWhile_cons_of_neg (by simp [observesTimeout, h])

theorem inTime_round {timeout : Nat} {start now : Instant} (h : expired timeout start now = false)
    (d : Deletion) (t : Trace Request Response) :
    inTime timeout start (⟨.instant, now⟩ :: d.call :: t) =
      ⟨.instant, now⟩ :: d.call :: inTime timeout start t := by
  unfold inTime
  rw [List.takeWhile_cons_of_pos (by simp [observesTimeout, h]), List.takeWhile_cons_of_pos rfl]

end Calls

section Runs

variable {client : Client} {node : String} {timeout : Nat} {start : Instant}
  {t : Trace Request Response} {result : Except ReconcilerError Unit}

/-- The runs of the eviction loop: it ends with the list, the time or a delete that is refused. -/
inductive Evicts (client : Client) (timeout : Nat) (start : Instant) :
    List Pod → Trace Request Response → Bool → Prop
  | done : Evicts client timeout start [] [] true
  | expired {pod : Pod} {pods : List Pod} {now : Instant} (hnow : expired timeout start now = true) :
      Evicts client timeout start (pod :: pods) [⟨.instant, now⟩] false
  | refused {pod : Pod} {pods : List Pod} {now : Instant} {answer : Except KubeError Unit}
      (hnow : Machine.expired timeout start now = false)
      (hrefused : ¬ (Deletion.of client pod answer).Accepted) :
      Evicts client timeout start (pod :: pods)
        [⟨.instant, now⟩, (Deletion.of client pod answer).call] false
  | next {pod : Pod} {pods : List Pod} {now : Instant} {answer : Except KubeError Unit}
      {t : Trace Request Response} {ok : Bool} (hnow : Machine.expired timeout start now = false)
      (haccepted : (Deletion.of client pod answer).Accepted) (h : Evicts client timeout start pods t ok) :
      Evicts client timeout start (pod :: pods)
        (⟨.instant, now⟩ :: (Deletion.of client pod answer).call :: t) ok

inductive Drains (client : Client) (node : String) (timeout : Nat) : Trace Request Response → Bool → Prop
  | uncordoned (e : KubeError) :
      Drains client node timeout [⟨.patchNode client node { unschedulable := some true }, .error e⟩] false
  | unlisted (e : KubeError) :
      Drains client node timeout [cordoned client node, ⟨.listPods client node, .error e⟩] false
  | idle {pods : List Pod} (hnone : pods.filter shouldEvictPod = []) :
      Drains client node timeout [cordoned client node, listed client node pods] true
  | evicting {pods : List Pod} {start : Instant} {t : Trace Request Response} {ok : Bool}
      (hsome : pods.filter shouldEvictPod ≠ [])
      (h : Evicts client timeout start (pods.filter shouldEvictPod) t ok) :
      Drains client node timeout
        (cordoned client node :: listed client node pods :: ⟨.instant, start⟩ :: t) ok

theorem accepted_of_ok {pod : Pod} : (Deletion.of client pod (.ok ())).Accepted := .inl rfl

theorem accepted_error_iff {pod : Pod} {e : KubeError} :
    (Deletion.of client pod (.error e)).Accepted ↔ e.isNotFound = true := by
  simp [Deletion.Accepted, Deletion.of]

theorem evictPod_performs {pod : Pod}
    (h : (evictPod client (pod.name.getD "unknown") (pod.ns.getD "default") node).run.Performs t result) :
    ∃ answer, t = [(Deletion.of client pod answer).call] ∧
      (result = .ok () ↔ (Deletion.of client pod answer).Accepted) := by
  obtain ⟨answer, rest, rfl, hanswer⟩ := performs_run_ask_bind.mp h
  refine ⟨answer, ?_⟩
  cases answer with
  | ok u =>
    obtain ⟨rfl, rfl⟩ := performs_run_pure.mp hanswer
    exact ⟨rfl, iff_of_true rfl accepted_of_ok⟩
  | error e =>
    rw [accepted_error_iff]
    dsimp only at hanswer
    split at hanswer
    · rename_i hgone
      obtain ⟨rfl, rfl⟩ := performs_run_pure.mp hanswer
      exact ⟨rfl, iff_of_true rfl hgone⟩
    · rename_i hthere
      -- blocked by a budget or failed otherwise: these differ in the text of the error only
      split at hanswer
      all_goals
        obtain ⟨rfl, rfl⟩ := performs_run_throw.mp hanswer
        exact ⟨rfl, iff_of_false (nomatch ·) hthere⟩

theorem evicts_of_performs {pods : List Pod}
    (h : (evictPods client node timeout start pods).run.Performs t result) :
    Evicts client timeout start pods t result.isOk := by
  induction pods generalizing t with
  | nil =>
    obtain ⟨rfl, rfl⟩ := performs_run_pure.mp h
    exact .done
  | cons pod pods ih =>
    obtain ⟨now, rest, rfl, hround⟩ := performs_run_ask_bind.mp h
    split at hround
    · rename_i hlate
      obtain ⟨rfl, rfl⟩ := performs_run_throw.mp hround
      exact .expired (decide_eq_true hlate)
    · rename_i hintime
      have hnow : expired timeout start now = false := decide_eq_false hintime
      rcases performs_run_bind_iff.mp hround with ⟨_, t₁, t₂, rfl, hpod, hrest⟩ | ⟨e, hpod, rfl⟩
      · obtain ⟨answer, rfl, haccepted⟩ := evictPod_performs hpod
        exact .next hnow (haccepted.mp rfl) (ih hrest)
      · obtain ⟨answer, rfl, haccepted⟩ := evictPod_performs hpod
        exact .refused hnow fun hyes => nomatch haccepted.mpr hyes

theorem orCapiError_performs {α : Type} {context : String} {answer : Except KubeError α}
    {result : Except ReconcilerError α} (h : (orCapiError context answer).run.Performs t result) :
    t = [] ∧ ((∃ a, answer = .ok a ∧ result = .ok a) ∨
      ∃ e, answer = .error e ∧ ∃ e', result = .error e') := by
  cases answer with
  | ok a =>
    obtain ⟨rfl, rfl⟩ := performs_run_pure.mp h
    exact ⟨rfl, .inl ⟨a, rfl, rfl⟩⟩
  | error e =>
    obtain ⟨rfl, rfl⟩ := performs_run_throw.mp h
    exact ⟨rfl, .inr ⟨e, rfl, _, rfl⟩⟩

theorem drains_of_performs
    (h : (drainNodeWithTimeout client node timeout).run.Performs t result) :
    Drains client node timeout t result.isOk := by
  rcases performs_run_bind_iff.mp h with ⟨_, t₁, t₂, rfl, hcordon, hlist⟩ | ⟨e, hcordon, rfl⟩
  · obtain ⟨answer, rest, rfl, hanswer⟩ := performs_run_ask_bind.mp hcordon
    obtain ⟨rfl, ⟨_, rfl, -⟩ | ⟨_, -, _, hfailed⟩⟩ := orCapiError_performs hanswer
    · obtain ⟨answer, rest, rfl, hanswer⟩ := performs_run_ask_bind.mp hlist
      rcases performs_run_bind_iff.mp hanswer with ⟨pods, t₁, t₂, rfl, hpods, hevict⟩ | ⟨e, herror, rfl⟩
      · obtain ⟨rfl, ⟨_, rfl, heq⟩ | ⟨_, -, _, hfailed⟩⟩ := orCapiError_performs hpods
        · cases heq
          split at hevict
          · rename_i hnone
            obtain ⟨rfl, rfl⟩ := performs_run_pure.mp hevict
            exact .idle hnone
          · rename_i hsome
            obtain ⟨start, rest, rfl, hloop⟩ := performs_run_ask_bind.mp hevict
            exact .evicting hsome (evicts_of_performs hloop)
        · cases hfailed
      · obtain ⟨rfl, ⟨_, -, hok⟩ | ⟨e', rfl, -⟩⟩ := orCapiError_performs herror
        · cases hok
        · exact .unlisted e'
    · cases hfailed
  · obtain ⟨answer, rest, rfl, hanswer⟩ := performs_run_ask_bind.mp hcordon
    obtain ⟨rfl, ⟨_, -, hok⟩ | ⟨e', rfl, -⟩⟩ := orCapiError_performs hanswer
    · cases hok
    · exact .uncordoned e'

theorem Evicts.targets {pods : List Pod} {ok : Bool} (h : Evicts client timeout start pods t ok) :
    (deletions t).map Deletion.target <+: pods.map (Pod.target client) := by
  induction h with
  | done => exact List.prefix_refl []
  | expired hnow => exact List.nil_prefix
  | refused hnow hrefused => exact List.cons_prefix_cons.mpr ⟨rfl, List.nil_prefix⟩
  | next hnow haccepted h ih => exact List.cons_prefix_cons.mpr ⟨rfl, ih⟩

theorem Evicts.ok_iff {pods : List Pod} {ok : Bool} (h : Evicts client timeout start pods t ok) :
    ok = true ↔ (deletions (inTime timeout start t)).map Deletion.target = pods.map (Pod.target client) ∧
      ∀ d ∈ deletions (inTime timeout start t), d.Accepted := by
  induction h with
  | done => exact iff_of_true rfl ⟨rfl, fun _ hd => nomatch hd⟩
  | expired hnow =>
    rw [inTime_expired hnow]
    exact iff_of_false Bool.false_ne_true fun hall => nomatch hall.1
  | refused hnow hrefused =>
    rw [inTime_round hnow]
    exact iff_of_false Bool.false_ne_true fun hall => hrefused (hall.2 _ List.mem_cons_self)
  | @next pod pods now answer t ok hnow haccepted h ih =>
    have htarget : (Deletion.of client pod answer).target = pod.target client := rfl
    rw [inTime_round hnow, deletions_instant, deletions_call, List.map_cons, List.map_cons,
      List.forall_mem_cons, htarget, List.cons.injEq, ih]
    tauto

/-- What a drain does, in the words of its purpose. -/
structure DrainEffect (client : Client) (node : String) (timeout : Nat) (t : Trace Request Response)
    (result : Except ReconcilerError Unit) : Prop where
  /-- No pod is deleted before the Node is known to be cordoned. -/
  cordonFirst : ∀ before c after, t = before ++ c :: after → (deletion? c).isSome = true →
    cordoned client node ∈ before
  /-- The deletes go to the evictable pods of the list, in its order and from its start. -/
  targets : deletions t = [] ∨ ∃ pods, listed client node pods ∈ t ∧
    (deletions t).map Deletion.target <+: evictable client pods
  ok_iff : result = .ok () ↔ cordoned client node ∈ t ∧ ∃ pods, listed client node pods ∈ t ∧
    (deletions (beforeTimeout timeout t)).map Deletion.target = evictable client pods ∧
    ∀ d ∈ deletions (beforeTimeout timeout t), d.Accepted

theorem evictable_eq (client : Client) (pods : List Pod) :
    evictable client pods = (pods.filter shouldEvictPod).map (Pod.target client) := by
  rw [evictable, funext shouldEvictPod_eq]

theorem mem_before_of_cordoned {before after : Trace Request Response} {c : Sigma Response}
    (ht : cordoned client node :: t = before ++ c :: after) (hdelete : (deletion? c).isSome = true) :
    cordoned client node ∈ before := by
  cases before with
  | nil =>
    obtain ⟨rfl, -⟩ := List.cons.inj ht
    cases hdelete
  | cons first before =>
    obtain ⟨rfl, -⟩ := List.cons.inj ht
    exact List.mem_cons_self

theorem Drains.cordonFirst {ok : Bool} (h : Drains client node timeout t ok)
    (before : Trace Request Response) (c : Sigma Response) (after : Trace Request Response)
    (ht : t = before ++ c :: after) (hdelete : (deletion? c).isSome = true) :
    cordoned client node ∈ before := by
  cases h with
  | uncordoned e =>
    have hc : c ∈ before ++ c :: after := by simp
    rw [← ht, List.mem_singleton] at hc
    rw [hc] at hdelete
    cases hdelete
  | unlisted e => exact mem_before_of_cordoned ht hdelete
  | idle hnone => exact mem_before_of_cordoned ht hdelete
  | evicting hsome h => exact mem_before_of_cordoned ht hdelete

theorem Drains.targets {ok : Bool} (h : Drains client node timeout t ok) :
    deletions t = [] ∨ ∃ pods, listed client node pods ∈ t ∧
      (deletions t).map Deletion.target <+: evictable client pods := by
  cases h with
  | uncordoned e => exact .inl rfl
  | unlisted e => exact .inl rfl
  | idle hnone => exact .inl rfl
  | @evicting pods start t ok hsome h =>
    refine .inr ⟨pods, List.mem_cons_of_mem _ List.mem_cons_self, ?_⟩
    rw [evictable_eq]
    exact h.targets

theorem Evicts.notMem_listed {pods pods' : List Pod} {ok : Bool}
    (h : Evicts client timeout start pods t ok) : listed client node pods' ∉ t := by
  induction h with
  | done => exact List.not_mem_nil
  | expired hnow => simp [listed]
  | refused hnow hrefused => simp [listed, Deletion.call]
  | next hnow haccepted h ih => exact fun hmem => ih (by simpa [listed, Deletion.call] using hmem)

theorem Drains.ok_iff {ok : Bool} (h : Drains client node timeout t ok) :
    ok = true ↔ cordoned client node ∈ t ∧ ∃ pods, listed client node pods ∈ t ∧
      (deletions (beforeTimeout timeout t)).map Deletion.target = evictable client pods ∧
      ∀ d ∈ deletions (beforeTimeout timeout t), d.Accepted := by
  cases h with
  | uncordoned e => simp [cordoned]
  | unlisted e => simp [listed, cordoned]
  | @idle pods hnone =>
    refine iff_of_true rfl ⟨List.mem_cons_self, pods, List.mem_cons_of_mem _ List.mem_cons_self, ?_,
      fun _ hd => nomatch hd⟩
    rw [evictable_eq, hnone]
    rfl
  | @evicting pods start t ok hsome h =>
    have hlisted : ∀ pods', listed client node pods' ∈
        cordoned client node :: listed client node pods :: ⟨.instant, start⟩ :: t ↔ pods' = pods := by
      intro pods'
      have hnot : listed client node pods' ∉ t := h.notMem_listed
      constructor
      · intro hmem
        simp only [List.mem_cons, hnot, or_false] at hmem
        simpa [listed, cordoned] using hmem
      · rintro rfl
        exact List.mem_cons_of_mem _ List.mem_cons_self
    simp only [hlisted, exists_eq_left, evictable_eq]
    rw [h.ok_iff]
    exact ⟨fun hall => ⟨List.mem_cons_self, hall⟩, fun hall => hall.2⟩

def samplePods : List Pod :=
  [⟨some "web", some "shop", some "Running", ["ReplicaSet"]⟩,
    ⟨some "proxy", some "kube-system", some "Running", ["DaemonSet"]⟩,
    ⟨some "import", some "shop", some "Succeeded", ["Job"]⟩,
    ⟨some "db", some "shop", none, []⟩]

def sampleDrain : Trace Request Response :=
  [cordoned .management "node-1", listed .management "node-1" samplePods, ⟨.instant, 0⟩,
    ⟨.instant, 1⟩, ⟨.deletePod .management "shop" "web", .ok ()⟩,
    ⟨.instant, nanosPerSecond⟩, ⟨.deletePod .management "shop" "db", .error (.api 404 "not found")⟩]

end Runs

end FiveSpot.Machine
