import FiveSpot.Capacity.Frame
import FiveSpot.Effects.Oracle

/-!
# Reconciles in surroundings that stay the same

When discovery, the provider, the access reviews, the conflict and the drain counter are answered the same
way every time, what a reconcile observes is known beforehand, up to the clock and to whether the owned
object is there yet. The status it computes is then known as well.
-/

namespace FiveSpot.Capacity

set_option autoImplicit false

open Effects Effects.Prog

structure Outlook where
  pinned : String → String → String → Except KubeError String
  provider : Except KubeError (Option Json)
  /-- By verb, group and plural. -/
  access : String → String → String → Except KubeError (Option Bool)
  /-- Whether the object of the resource's name, if there is one, is its own. -/
  owned : Bool
  drained : Option Int
  /-- Whether a ScheduledMachine claims the node. -/
  conflict : Bool

namespace Outlook

variable (E : Outlook)

/-- An object that is owned and drained as it should be. -/
structure Shows (c : ScheduledCapacity) (object : Object) : Prop where
  owned : isOwnedBy object c = E.owned
  drained : ∀ path, c.drainedPath = some path → readI64At object.data path = E.drained

/-- Answers for a given state of the owned object. -/
def oracle (existing : Option Object) : (q : Request) → Response q
  | .isLeader => true
  | .now => 0
  | .pinnedKind group version kind => E.pinned group version kind
  | .getProvider _ _ => E.provider
  | .accessReview verb group plural _ => E.access verb group plural
  | .getObject _ _ _ => .ok existing
  | .listMachines _ => .ok []
  | .applyObject _ _ _ _ => .ok ()
  | .patchStatus _ => .ok ()

def verdict (ns : String) (c : ScheduledCapacity) : Except CapacityError SpotScheduleVerdict :=
  (resolveVerdict ns c).run.eval (E.oracle none)

/--
The answers to a reconcile that was started on `w`. The provider may change as long as its verdict does
not, the object as long as the drain counter does not, and the machines as long as the conflict does not.
-/
def Answers (w : World) : (q : Request) → Response q → Prop
  | .isLeader, _ => True
  | .now, _ => True
  | .pinnedKind group version kind, r => r = E.pinned group version kind
  | .getProvider ns _, r => ({ E with provider := r } : Outlook).verdict ns w.capacity =
      E.verdict ns w.capacity
  | .accessReview verb group plural _, r => r = E.access verb group plural
  | .getObject _ _ _, r => ∃ existing, r = .ok existing ∧ existing.isSome = w.object.isSome ∧
      ∀ object, existing = some object → E.Shows w.capacity object
  | .listMachines _, r => ∃ machines, r = .ok machines ∧
      ∀ node, w.capacity.spec.nodeName = some node → machines.any (governsNode node) = E.conflict
  | .applyObject _ _ _ _, r => r = .ok ()
  | .patchStatus _, r => r = .ok ()

def contested (c : ScheduledCapacity) : Bool := c.spec.nodeName.isSome && E.conflict

/-- The result of `x`, which may not depend on the owned object, or be what follows from it. -/
def Finds {α : Type} (c : ScheduledCapacity) (present : Bool) (x : Reconcile α) (a : α) : Prop :=
  (∀ existing, x.run.eval (E.oracle existing) = .ok a) ∨
    ∃ existing, existing.isSome = present ∧ (∀ object, existing = some object → E.Shows c object) ∧
      x.run.eval (E.oracle existing) = .ok a

structure Observes (ns : String) (c : ScheduledCapacity) (present : Bool) (o : Observation) : Prop where
  verdict : E.verdict ns c = .ok o.verdict
  target : E.Finds c present (resolveTarget ns c) o.target
  drained : o.observedDrained = readDrained o.target c.drainedPath
  conflict : o.conflict = E.contested c
  timeout : parseHandbackTimeout c = .ok o.handbackTimeout

end Outlook

def Request.fixed : Request → Bool
  | .pinnedKind _ _ _ => true
  | .accessReview _ _ _ _ => true
  | _ => false

def freshConditions (c : ScheduledCapacity) (o : Observation) (time : Fin 6 → Instant) : List Condition :=
  let d := decision c o
  [.new (time 0) conditionTypeReady (boolStatus d.ready) d.reason d.message,
    .new (time 1) conditionTypeSpotScheduleResolved (boolStatus o.verdict.isResolved) o.verdict.reason
      (verdictMessage o.verdict),
    .new (time 2) conditionTypeTargetResolved (boolStatus o.target.writable) o.target.reason
      o.target.message,
    .new (time 3) conditionTypeCapacityWritten (boolStatus (recordedValue c o).isSome) d.reason
      (writtenMessage c (recordedValue c o)),
    .new (time 4) conditionTypeHandbackComplete (boolStatus d.handbackComplete) d.reason d.message,
    .new (time 5) conditionTypeHostGovernanceConflict (boolStatus d.conflict)
      (if d.conflict then reasonHostGovernanceConflict else reasonNoHostGovernanceConflict)
      (governanceMessage c d.conflict)]

def storedConditions (c : ScheduledCapacity) : List Condition := c.status.elim [] fun s => s.conditions

def computedPatch (c : ScheduledCapacity) (ns : String) (o : Observation) (time : Fin 6 → Instant) :
    StatusPatch :=
  statusPatch c ns o (mergeConditionTimestamps (freshConditions c o time) (storedConditions c))

def computedStatus (c : ScheduledCapacity) (ns : String) (o : Observation) (time : Fin 6 → Instant) :
    ScheduledCapacityStatus :=
  (computedPatch c ns o time).apply none

/-- The decision is carried out: nothing was written but what it calls for, and to a resolved target. -/
structure Acted (c : ScheduledCapacity) (o : Observation) (h : Log) : Prop where
  now : ⟨.now, o.now⟩ ∈ h
  unpatched : Unpatched h
  idle : (decision c o).write = none → Untouched h
  sent : Untouched h ∨ o.target.writable = true

inductive Steadily (E : Outlook) (w : World) (h : Log) : Request → Prop where
  | now : Steadily E w h .now
  | fixed {q : Request} : q.fixed = true → Steadily E w h q
  | read {q : Request} : q.reads = true → Untouched h → Steadily E w h q
  | apply {ns : String} {o : Observation} {plural name : String} {desired : OwnedObject} :
      w.capacity.ns = some ns → E.Observes ns w.capacity w.object.isSome o → Untouched h →
      (decision w.capacity o).write.isSome = true → o.target.writable = true →
      Steadily E w h (.applyObject plural ns name desired)
  | patch {ns : String} {o : Observation} {time : Fin 6 → Instant} :
      w.capacity.ns = some ns → E.Observes ns w.capacity w.object.isSome o → Acted w.capacity o h →
      w.capacity.status ≠ some (computedStatus w.capacity ns o time) →
      Steadily E w h (.patchStatus (computedPatch w.capacity ns o time))

def steadyContract (E : Outlook) :
    Contract Request Response World (Except CapacityError (Option Observation)) where
  answers := E.Answers
  permits := Steadily E
  returns _ _ h := Untouched h ∨ ¬ Unpatched h

section Binds

variable {α β : Type} {E : Outlook} {w : World} {h : Log} {ns : String}

/-- With the answers of `E`, `x` keeps to the calls described; it can fail only before it writes. -/
structure Calmly (E : Outlook) (w : World) (x : Reconcile α) (h : Log) (Q : α → Log → Prop) : Prop where
  meets : x.run.Meets (E.Answers w) (Steadily E w) (Outcome Q fun _ h' => Untouched h') h

structure Looked (h h' : Log) : Prop where
  untouched : Untouched h'
  kept : ∀ x ∈ h, x ∈ h'

theorem Looked.cons {q : Request} (hu : Untouched h) (hq : q.reads = true) (r : Response q) :
    Looked h (⟨q, r⟩ :: h) where
  untouched x hx := by
    rcases List.mem_cons.mp hx with rfl | hx
    · exact hq
    · exact hu x hx
  kept _ := List.mem_cons_of_mem _

theorem Looked.trans {h' h'' : Log} (hl : Looked h h') (hl' : Looked h' h'') : Looked h h'' :=
  ⟨hl'.untouched, fun x hx => hl'.kept x (hl.kept x hx)⟩

variable {x : Reconcile α} {f : α → Reconcile β} {Q : α → Log → Prop} {Q' : β → Log → Prop}

theorem Calmly.bind (hx : Calmly E w x h Q) (hf : ∀ a h', Q a h' → Calmly E w (f a) h' Q') :
    Calmly E w (x >>= f) h Q' :=
  ⟨meets_seq hx.meets (fun a h' ha => (hf a h' ha).meets) fun _ _ hu => hu⟩

theorem calmly_pure {a : α} (ha : Q a h) : Calmly E w (pure a) h Q := ⟨ha⟩

theorem calmly_throw {e : CapacityError} (hu : Untouched h) :
    Calmly E w (throw e : Reconcile α) h Q := ⟨hu⟩

theorem calmly_call {q : Request} {f : Response q → Reconcile β} (hq : Steadily E w h q)
    (hf : ∀ r, E.Answers w q r → Calmly E w (f r) (⟨q, r⟩ :: h) Q') :
    Calmly E w (call q >>= f) h Q' :=
  ⟨meets_run_bind.mpr (meets_run_ask.mpr ⟨hq, fun r hr => (hf r hr).meets⟩)⟩

theorem calmly_check {v : Except CapacityError α} {f : α → Reconcile β} (hu : Untouched h)
    (hf : ∀ a, v = .ok a → Calmly E w (f a) h Q') : Calmly E w (check v >>= f) h Q' := by
  cases v with
  | ok a => exact hf a rfl
  | error e => exact ⟨hu⟩

theorem calmly_orPath {v : Except CapacityPathError α} {f : α → Reconcile β} (hu : Untouched h)
    (hf : ∀ a, Calmly E w (f a) h Q') : Calmly E w (orPath v >>= f) h Q' := by
  cases v with
  | ok a => exact hf a
  | error e => exact ⟨hu⟩

theorem reads_of_fixed {q : Request} (hq : q.fixed = true) : q.reads = true := by
  cases q <;> first | rfl | cases hq

theorem calmly_fixed (existing : Option Object) (hx : x.run.Uses fun q => q.fixed = true)
    (hu : Untouched h) :
    Calmly E w x h fun a h' => x.run.eval (E.oracle existing) = .ok a ∧ Looked h h' := by
  have hmeets : x.run.Meets (E.Answers w) (Steadily E w) (fun r h' =>
      r = x.run.eval (E.oracle existing) ∧ History.Grown (fun q => q.fixed = true) h h') h := by
    refine hx.meets_eval (fun _ _ hq => .fixed hq) fun q r hq hr => ?_
    cases q <;> first | exact hr | cases hq
  refine ⟨hmeets.mono fun r h' hr => ?_⟩
  obtain ⟨heq, hgrown⟩ := hr
  have hreads : History.Grown (fun q => q.reads = true) h h' := hgrown.mono fun _ => reads_of_fixed
  have hlooked : Looked h h' := ⟨hreads.forall hu, fun _ => hgrown.mem⟩
  cases r with
  | ok a => exact ⟨heq.symm, hlooked⟩
  | error e => exact hlooked.untouched

theorem calmly_fixed_bind (hx : x.run.Uses fun q => q.fixed = true) (hu : Untouched h)
    (hf : ∀ a h', Untouched h' → Calmly E w (f a) h' fun b h'' =>
      E.Finds w.capacity w.object.isSome (f a) b ∧ Looked h' h'') :
    Calmly E w (x >>= f) h fun b h' =>
      E.Finds w.capacity w.object.isSome (x >>= f) b ∧ Looked h h' := by
  refine (calmly_fixed none hx hu).bind fun a h' ha => ?_
  obtain ⟨heval, hlooked⟩ := ha
  have hbind : ∀ existing, (x >>= f).run.eval (E.oracle existing) =
      (f a).run.eval (E.oracle existing) := by
    intro existing
    have hsame : x.run.eval (E.oracle existing) = x.run.eval (E.oracle none) :=
      hx.eval_congr fun q hq => by cases q <;> first | rfl | cases hq
    rw [eval_run_bind, hsame, heval]
    rfl
  refine ⟨meets_outcome_mono (hf a h' hlooked.untouched).meets (fun b h'' hb => ?_) fun _ _ hu' => hu'⟩
  unfold Outlook.Finds
  simp only [hbind]
  exact ⟨hb.1, hlooked.trans hb.2⟩

theorem calmly_found {a : α} (hu : Untouched h) :
    Calmly E w (pure a) h fun b h' => E.Finds w.capacity w.object.isSome (pure a) b ∧ Looked h h' :=
  calmly_pure ⟨.inl fun _ => rfl, hu, fun _ hx => hx⟩

theorem uses_orKube (P : Request → Prop) (v : Except KubeError α) : (orKube v).run.Uses P := by
  cases v <;> trivial

def askProvider (ns : String) (c : ScheduledCapacity) : Reconcile (Except KubeError SpotScheduleVerdict) :=
  resolveSpotSchedule (m := Reconcile)
    (fun group version kind => do return (← call (.pinnedKind group version kind)).map fun _ => ())
    (fun ns name => call (.getProvider ns name)) ns c.spec.schedule

theorem calmly_askProvider (hu : Untouched h) :
    Calmly E w (askProvider ns w.capacity) h fun v h' => Looked h h' ∧
      ∃ provider : Except KubeError (Option Json),
        ({ E with provider := provider } : Outlook).verdict ns w.capacity = E.verdict ns w.capacity ∧
        (askProvider ns w.capacity).run.eval
          (({ E with provider := provider } : Outlook).oracle none) = .ok v := by
  unfold askProvider resolveSpotSchedule
  simp only
  refine Calmly.bind (calmly_fixed none ?_ hu) fun installed h₁ hinstalled => ?_
  · exact uses_run_bind ((uses_run_ask _).mpr rfl) fun _ => trivial
  · obtain ⟨hinstalled, hlooked⟩ := hinstalled
    cases installed with
    | error e =>
      refine calmly_pure ⟨hlooked, E.provider, rfl, ?_⟩
      rw [eval_run_bind]
      exact congrArg (fun y => Except.bind y _) hinstalled
    | ok _ =>
      refine calmly_call (.read rfl hlooked.untouched) fun provider hprovider => ?_
      have hlooked' : Looked h (⟨.getProvider ns w.capacity.spec.schedule.name, provider⟩ :: h₁) :=
        hlooked.trans (.cons hlooked.untouched rfl provider)
      rcases provider with e | _ | object
      all_goals
        refine calmly_pure ⟨hlooked', _, hprovider, ?_⟩
        rw [eval_run_bind]
        exact congrArg (fun y => Except.bind y _) hinstalled

theorem calmly_resolveVerdict (hu : Untouched h) :
    Calmly E w (resolveVerdict ns w.capacity) h fun verdict h' =>
      E.verdict ns w.capacity = .ok verdict ∧ Looked h h' := by
  refine (calmly_askProvider hu).bind fun v h' hv => ?_
  obtain ⟨hlooked, provider, hsame, heval⟩ := hv
  have hverdict : ({ E with provider := provider } : Outlook).verdict ns w.capacity = _ :=
    (eval_run_bind (askProvider ns w.capacity) _).trans (congrArg (fun y => Except.bind y _) heval)
  rw [← hsame, hverdict]
  cases v with
  | ok verdict => exact calmly_pure ⟨rfl, hlooked⟩
  | error e => exact calmly_pure ⟨rfl, hlooked⟩

theorem fixed_forbiddenVerb (group plural : String) (verbs : List String) :
    (forbiddenVerb ns group plural verbs).run.Uses fun q => q.fixed = true := by
  induction verbs with
  | nil => trivial
  | cons verb verbs ih =>
    refine uses_run_bind ?_ fun allowed => ?_
    · exact uses_run_bind ((uses_run_ask _).mpr rfl) fun answer =>
        uses_run_bind (uses_orKube _ answer) fun _ => trivial
    · split
      · trivial
      · exact ih

theorem calmly_resolveExisting {plural : String} (hu : Untouched h) :
    Calmly E w (resolveExisting ns plural w.capacity) h fun target h' =>
      E.Finds w.capacity w.object.isSome (resolveExisting ns plural w.capacity) target ∧ Looked h h' := by
  refine calmly_call (.read rfl hu) fun r hr => ?_
  obtain ⟨existing, rfl, hpresent, hshows⟩ := hr
  have hlooked : Looked h (⟨.getObject plural ns w.capacity.name, .ok existing⟩ :: h) :=
    .cons hu rfl _
  cases existing with
  | none => exact calmly_pure ⟨.inr ⟨none, hpresent, hshows, rfl⟩, hlooked⟩
  | some object =>
    change Calmly E w (if !isOwnedBy object w.capacity then _ else _) _ _
    split
    · rename_i hforeign
      refine calmly_pure ⟨.inr ⟨some object, hpresent, hshows, ?_⟩, hlooked⟩
      change (ExceptT.run (if !isOwnedBy object w.capacity then _ else _ : Reconcile _)).eval _ = _
      rw [if_pos hforeign]
      rfl
    · rename_i howned
      refine calmly_pure ⟨.inr ⟨some object, hpresent, hshows, ?_⟩, hlooked⟩
      change (ExceptT.run (if !isOwnedBy object w.capacity then _ else _ : Reconcile _)).eval _ = _
      rw [if_neg howned]
      rfl

theorem calmly_resolveTarget (hu : Untouched h) :
    Calmly E w (resolveTarget ns w.capacity) h fun target h' =>
      E.Finds w.capacity w.object.isSome (resolveTarget ns w.capacity) target ∧ Looked h h' := by
  unfold resolveTarget
  simp only
  split
  · exact calmly_found hu
  · refine calmly_fixed_bind ((uses_run_ask _).mpr rfl) hu fun answer h' hu' => ?_
    cases answer with
    | error e => exact calmly_found hu'
    | ok plural =>
      refine calmly_fixed_bind (fixed_forbiddenVerb _ _ _) hu' fun verb h'' hu'' => ?_
      cases verb with
      | some verb => exact calmly_found hu''
      | none => exact calmly_resolveExisting hu''

theorem calmly_detectConflict (hu : Untouched h) :
    Calmly E w (detectHostGovernanceConflict ns w.capacity) h fun conflict h' =>
      conflict = E.contested w.capacity ∧ Looked h h' := by
  unfold detectHostGovernanceConflict
  split
  · rename_i hnode
    exact calmly_pure ⟨by simp [Outlook.contested, hnode], hu, fun _ hx => hx⟩
  · rename_i node hnode
    refine calmly_call (.read rfl hu) fun r hr => ?_
    obtain ⟨machines, rfl, hconflict⟩ := hr
    refine calmly_pure ⟨?_, .cons hu rfl _⟩
    rw [hconflict node hnode]
    simp [Outlook.contested, hnode]

theorem calmly_observe (hu : Untouched h) :
    Calmly E w (observe ns w.capacity) h fun o h' =>
      E.Observes ns w.capacity w.object.isSome o ∧ ⟨.now, o.now⟩ ∈ h' ∧ Untouched h' := by
  have hnow : Steadily E w h .now := .now
  refine calmly_call hnow fun now _ => ?_
  have hlooked : Looked h (⟨.now, now⟩ :: h) := .cons hu rfl now
  refine calmly_orPath hlooked.untouched fun _ => ?_
  have hrest : Calmly E w
      (do
        let verdict ← resolveVerdict ns w.capacity
        let target ← resolveTarget ns w.capacity
        let conflict ← detectHostGovernanceConflict ns w.capacity
        let handbackTimeout ← check (parseHandbackTimeout w.capacity)
        return ({ now, verdict, target, conflict, handbackTimeout,
                  observedDrained := readDrained target w.capacity.drainedPath } : Observation))
      (⟨.now, now⟩ :: h) fun o h' =>
        E.Observes ns w.capacity w.object.isSome o ∧ ⟨.now, o.now⟩ ∈ h' ∧ Untouched h' := by
    refine (calmly_resolveVerdict hlooked.untouched).bind fun verdict h₁ hverdict => ?_
    refine (calmly_resolveTarget hverdict.2.untouched).bind fun target h₂ htarget => ?_
    refine (calmly_detectConflict htarget.2.untouched).bind fun conflict h₃ hconflict => ?_
    refine calmly_check hconflict.2.untouched fun timeout htimeout => calmly_pure ?_
    have hall := (hverdict.2.trans htarget.2).trans hconflict.2
    exact ⟨⟨hverdict.1, htarget.1, rfl, hconflict.1, htimeout⟩, hall.kept _ List.mem_cons_self,
      hall.untouched⟩
  split
  · exact calmly_orPath hlooked.untouched fun _ => hrest
  · exact hrest

end Binds

section Target

variable {E : Outlook} {ns : String} {c : ScheduledCapacity}

structure Closed (t : TargetResolution) : Prop where
  writable : t.writable = false
  apiResource : t.apiResource = none
  object : t.object = none

theorem closed_blocked (reason message : String) : Closed (.blocked reason message) := ⟨rfl, rfl, rfl⟩

/-- `x` ends before it asks for the object, or by what it finds then. -/
inductive Ends (E : Outlook) (ns : String) (c : ScheduledCapacity) (x : Reconcile TargetResolution) :
    Prop where
  | closed {t : TargetResolution} : Closed t →
      (∀ existing, x.run.eval (E.oracle existing) = .ok t) → Ends E ns c x
  | failed {e : CapacityError} : (∀ existing, x.run.eval (E.oracle existing) = .error e) → Ends E ns c x
  | asked {plural : String} : (∀ existing, x.run.eval (E.oracle existing) =
      (resolveExisting ns plural c).run.eval (E.oracle existing)) → Ends E ns c x

theorem ends_blocked (reason message : String) : Ends E ns c (pure (.blocked reason message)) :=
  .closed (closed_blocked reason message) fun _ => rfl

theorem ends_bind {α : Type} {x : Reconcile α} {f : α → Reconcile TargetResolution}
    (hx : x.run.Uses fun q => q.fixed = true) (hf : ∀ a, Ends E ns c (f a)) :
    Ends E ns c (x >>= f) := by
  have hsame : ∀ existing, x.run.eval (E.oracle existing) = x.run.eval (E.oracle none) := fun _ =>
    hx.eval_congr fun q hq => by cases q <;> first | rfl | cases hq
  have hbind : ∀ existing, (x >>= f).run.eval (E.oracle existing) =
      (x.run.eval (E.oracle none)).bind fun a => (f a).run.eval (E.oracle existing) := fun existing => by
    rw [eval_run_bind, hsame]
  cases heval : x.run.eval (E.oracle none) with
  | error e =>
    refine .failed (e := e) fun existing => ?_
    rw [hbind, heval]
    rfl
  | ok a =>
    have hrest : ∀ existing, (x >>= f).run.eval (E.oracle existing) =
        (f a).run.eval (E.oracle existing) := fun existing => by
      rw [hbind, heval]
      rfl
    cases hf a with
    | closed ht hclosed => exact .closed ht fun existing => (hrest existing).trans (hclosed existing)
    | failed hfailed => exact .failed fun existing => (hrest existing).trans (hfailed existing)
    | asked hasked => exact .asked fun existing => (hrest existing).trans (hasked existing)

theorem ends_resolveTarget (E : Outlook) (ns : String) (c : ScheduledCapacity) :
    Ends E ns c (resolveTarget ns c) := by
  unfold resolveTarget
  simp only
  split
  · exact ends_blocked _ _
  · refine ends_bind ((uses_run_ask _).mpr rfl) fun answer => ?_
    cases answer with
    | error e => exact ends_blocked _ _
    | ok plural =>
      refine ends_bind (fixed_forbiddenVerb _ _ _) fun verb => ?_
      cases verb with
      | some verb => exact ends_blocked _ _
      | none => exact .asked fun _ => rfl

/-- Two resolutions that make no difference to the decision and to the status. -/
structure SameSight (c : ScheduledCapacity) (t t' : TargetResolution) : Prop where
  writable : t'.writable = t.writable
  reason : t'.reason = t.reason
  message : t'.message = t.message
  object : t'.object.isSome = t.object.isSome
  drained : readDrained t' c.drainedPath = readDrained t c.drainedPath

theorem SameSight.refl (t : TargetResolution) : SameSight c t t := ⟨rfl, rfl, rfl, rfl, rfl⟩

variable {plural : String} {t t' : TargetResolution}

theorem apiResource_existing {existing : Option Object}
    (ht : (resolveExisting ns plural c).run.eval (E.oracle existing) = .ok t) :
    t.apiResource.isSome = t.writable := by
  cases existing with
  | none =>
    cases ht
    rfl
  | some object =>
    change (ExceptT.run (if !isOwnedBy object c then _ else _ : Reconcile _)).eval _ = _ at ht
    split at ht <;> cases ht <;> rfl

theorem sameSight_existing {existing existing' : Option Object}
    (hp : existing'.isSome = existing.isSome)
    (hs : ∀ object, existing = some object → E.Shows c object)
    (hs' : ∀ object, existing' = some object → E.Shows c object)
    (ht : (resolveExisting ns plural c).run.eval (E.oracle existing) = .ok t)
    (ht' : (resolveExisting ns plural c).run.eval (E.oracle existing') = .ok t') :
    SameSight c t t' := by
  cases existing with
  | none =>
    obtain rfl : existing' = none := Option.isSome_eq_false_iff.mp hp |> Option.isNone_iff_eq_none.mp
    cases ht
    cases ht'
    exact .refl _
  | some object =>
    obtain ⟨object', rfl⟩ := Option.isSome_iff_exists.mp hp
    have hs := hs object rfl
    have hs' := hs' object' rfl
    change (ExceptT.run (if !isOwnedBy object c then _ else _ : Reconcile _)).eval _ = _ at ht
    change (ExceptT.run (if !isOwnedBy object' c then _ else _ : Reconcile _)).eval _ = _ at ht'
    rw [hs.owned] at ht
    rw [hs'.owned] at ht'
    cases howned : E.owned <;> rw [howned] at ht ht' <;> cases ht <;> cases ht'
    · exact .refl _
    · refine ⟨rfl, rfl, rfl, rfl, ?_⟩
      unfold readDrained
      cases hpath : c.drainedPath with
      | none => rfl
      | some path => exact (hs'.drained path hpath).trans (hs.drained path hpath).symm

theorem Outlook.Finds.exists_eval {α : Type} {x : Reconcile α} {a : α} {present : Bool}
    (ha : E.Finds c present x a) : ∃ existing, x.run.eval (E.oracle existing) = .ok a := by
  rcases ha with hall | ⟨existing, _, _, hsome⟩
  · exact ⟨none, hall none⟩
  · exact ⟨existing, hsome⟩

variable {present : Bool}

theorem apiResource_found (ht : E.Finds c present (resolveTarget ns c) t) :
    t.apiResource.isSome = t.writable := by
  obtain ⟨existing, heval⟩ := ht.exists_eval
  cases ends_resolveTarget E ns c with
  | closed hclosed hall =>
    rw [hall] at heval
    cases heval
    rw [hclosed.apiResource, hclosed.writable]
    rfl
  | failed hall =>
    rw [hall] at heval
    cases heval
  | asked hall =>
    rw [hall] at heval
    exact apiResource_existing heval

theorem sameSight_found (ht : E.Finds c present (resolveTarget ns c) t)
    (ht' : E.Finds c present (resolveTarget ns c) t') : SameSight c t t' := by
  have hequal : ∀ existing, (resolveTarget ns c).run.eval (E.oracle existing) = .ok t →
      (resolveTarget ns c).run.eval (E.oracle existing) = .ok t' → SameSight c t t' := by
    intro existing heval heval'
    cases heval.symm.trans heval'
    exact .refl t
  rcases ht with hall | ⟨existing, hp, hs, heval⟩
  · obtain ⟨existing', heval'⟩ := ht'.exists_eval
    exact hequal existing' (hall existing') heval'
  · rcases ht' with hall' | ⟨existing', hp', hs', heval'⟩
    · exact hequal existing heval (hall' existing)
    · cases ends_resolveTarget E ns c with
      | closed _ hall => exact hequal existing heval (by rw [hall existing, ← hall existing', heval'])
      | failed hall =>
        rw [hall] at heval
        cases heval
      | asked hall =>
        rw [hall] at heval heval'
        exact sameSight_existing (hp'.trans hp.symm) hs hs' heval heval'

end Target

section Acting

variable {E : Outlook} {w : World} {h : Log} {ns : String} {o : Observation}

@[simp] theorem computedStatus_writtenValue {c : ScheduledCapacity} {time : Fin 6 → Instant} :
    (computedStatus c ns o time).writtenValue = recordedValue c o :=
  buildStatusValue_writtenValue ..

theorem Acted.grown {c : ScheduledCapacity} {h' : Log} (ha : Acted c o h)
    (hh : History.Grown (fun q => q.reads = true) h h') : Acted c o h' where
  now := hh.mem ha.now
  unpatched := (hh.mono fun _ => patches_of_reads).forall ha.unpatched
  idle hnone := (ha.idle hnone).grown hh
  sent := ha.sent.imp (fun hu => hu.grown hh) id

theorem calmly_writeDecided (hns : w.capacity.ns = some ns)
    (ho : E.Observes ns w.capacity w.object.isSome o) (hnow : ⟨.now, o.now⟩ ∈ h) (hu : Untouched h) :
    Calmly E w (writeDecided ns w.capacity o.target (decision w.capacity o)) h fun written h' =>
      written = recordedValue w.capacity o ∧ Acted w.capacity o h' := by
  have hstill : Acted w.capacity o h := ⟨hnow, hu.unpatched, fun _ => hu, .inl hu⟩
  unfold writeDecided
  split
  · rename_i value hvalue
    have hrecorded : some value = recordedValue w.capacity o := by simp [recordedValue, hvalue]
    unfold applyOwnedObject
    split
    · exact calmly_pure ⟨hrecorded, hstill⟩
    · rename_i plural hplural
      have hwritable : o.target.writable = true := by
        rw [← apiResource_found ho.target, hplural]
        rfl
      refine Calmly.bind (Q := fun _ h' => Acted w.capacity o h') ?_ fun _ h' ha =>
        calmly_pure ⟨hrecorded, ha⟩
      refine calmly_check hu fun desired _ => ?_
      refine calmly_call (.apply hns ho hu (by simp [hvalue]) hwritable) fun r hr => ?_
      cases hr
      refine calmly_pure ⟨List.mem_cons_of_mem _ hnow, ?_, ?_, .inr hwritable⟩
      · intro x hx
        rcases List.mem_cons.mp hx with rfl | hx
        · rfl
        · exact hu.unpatched x hx
      · intro hnone
        cases hvalue.symm.trans hnone
  · rename_i hnone
    exact calmly_pure ⟨by simp [recordedValue, hnone], hstill⟩

abbrev Read (h h' : Log) : Prop := History.Grown (fun q => q.reads = true) h h'

theorem calmly_newCondition {h₀ : Log} {type reason message : String} {status : Bool}
    (hh : Read h₀ h) :
    Calmly E w (newCondition type status reason message) h fun a h' =>
      (∃ now : Instant, a = .new now type (boolStatus status) reason message) ∧ Read h₀ h' := by
  have hnow : Steadily E w h .now := .now
  exact calmly_call hnow fun now _ => calmly_pure ⟨⟨now, rfl⟩, hh.cons rfl now⟩

theorem calmly_computeConditions :
    Calmly E w (computeConditions w.capacity (decision w.capacity o) o.verdict o.target
      (recordedValue w.capacity o)) h fun computed h' =>
      (∃ time, computed = freshConditions w.capacity o time) ∧ Read h h' := by
  have hstart : Read h h := .refl h
  unfold computeConditions
  refine (calmly_newCondition hstart).bind fun _ _ hready => ?_
  refine (calmly_newCondition hready.2).bind fun _ _ hresolved => ?_
  refine (calmly_newCondition hresolved.2).bind fun _ _ htarget => ?_
  refine (calmly_newCondition htarget.2).bind fun _ _ hwritten => ?_
  refine (calmly_newCondition hwritten.2).bind fun _ _ hcomplete => ?_
  refine (calmly_newCondition hcomplete.2).bind fun _ _ hconflict => ?_
  obtain ⟨ready, rfl⟩ := hready.1
  obtain ⟨resolved, rfl⟩ := hresolved.1
  obtain ⟨target, rfl⟩ := htarget.1
  obtain ⟨written, rfl⟩ := hwritten.1
  obtain ⟨complete, rfl⟩ := hcomplete.1
  obtain ⟨conflict, rfl⟩ := hconflict.1
  exact calmly_pure ⟨⟨[ready, resolved, target, written, complete, conflict].get, rfl⟩, hconflict.2⟩

theorem calmly_patchStatus (hns : w.capacity.ns = some ns)
    (ho : E.Observes ns w.capacity w.object.isSome o) (ha : Acted w.capacity o h) :
    Calmly E w (patchStatus ns w.capacity (decision w.capacity o) o.verdict o.target
      (recordedValue w.capacity o) o.observedDrained o.now) h fun _ h' =>
      Untouched h' ∨ ¬ Unpatched h' := by
  refine calmly_computeConditions.bind fun computed h' hcomputed => ?_
  obtain ⟨⟨time, rfl⟩, hread⟩ := hcomputed
  have ha' := ha.grown hread
  change Calmly E w (if w.capacity.status = some (computedStatus w.capacity ns o time) then _ else _) _ _
  split
  · rename_i hsame
    refine calmly_pure (.inl (ha'.idle ?_))
    -- a write would have changed the record
    cases hwrite : (decision w.capacity o).write with
    | none => rfl
    | some value =>
      have hrecorded : w.capacity.writtenValue = recordedValue w.capacity o := by
        unfold ScheduledCapacity.writtenValue
        rw [hsame]
        exact computedStatus_writtenValue
      exact absurd (by rw [hrecorded, recordedValue, hwrite]; rfl) (write_ne_writtenValue hwrite)
  · rename_i hdiffers
    refine calmly_call (.patch hns ho ha' hdiffers) fun r hr => ?_
    cases hr
    exact calmly_pure (.inr fun hun => Bool.noConfusion (hun _ List.mem_cons_self))

end Acting

theorem steadyContract_binds (E : Outlook) (w : World) :
    (steadyContract E).Binds w [] (capacitySystem.program w) := by
  have hleader : Steadily E w [] .isLeader := .read rfl fun _ h => by cases h
  have hcalm : Calmly E w (reconcileObserved w.capacity) [] fun _ h => Untouched h ∨ ¬ Unpatched h := by
    refine calmly_call hleader fun leader _ => ?_
    have hu : Untouched [⟨.isLeader, leader⟩] :=
      (Looked.cons (fun _ h => by cases h) rfl leader).untouched
    cases leader with
    | false => exact calmly_pure (.inl hu)
    | true =>
      rw [if_neg (by decide)]
      split
      · exact calmly_throw hu
      · rename_i ns hns
        refine (calmly_observe hu).bind fun o h₁ ho => ?_
        refine (calmly_writeDecided hns ho.1 ho.2.1 ho.2.2).bind fun written h₂ hw => ?_
        obtain ⟨rfl, ha⟩ := hw
        exact (calmly_patchStatus hns ho.1 ha).bind fun _ _ hend => calmly_pure hend
  refine hcalm.meets.mono fun r h hr => ?_
  cases r with
  | ok a => exact hr
  | error e => exact .inl hr

end FiveSpot.Capacity
