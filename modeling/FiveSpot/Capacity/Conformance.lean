import FiveSpot.Capacity.Behaviour

/-!
# The capacity reconciler keeps to its description

One lemma for each step of the reconcile, each from what the steps before it ensure, and from them
that every reconcile makes permitted calls only and ends as described.
-/

namespace FiveSpot.Capacity

set_option autoImplicit false

open Effects Effects.Prog

variable {α β : Type} {c : ScheduledCapacity} {h : Log} {ns : String}

abbrev LookedUp (h h' : Log) : Prop := History.Grown (fun q => q.looksUp = true) h h'

abbrev LooksUp (x : Reconcile α) : Prop := x.run.Uses fun q => q.looksUp = true

theorem keeps_looksUp {x : Reconcile α} (hx : LooksUp x) :
    Keeps (Permitted c) x h (fun _ h' => LookedUp h h') fun _ h' => LookedUp h h' :=
  ⟨uses_run_meets hx fun _ _ _ hq => .lookUp hq⟩

theorem keeps_checked {v : Except CapacityError α} {f : α → Reconcile β} {Q : β → Log → Prop}
    {E : CapacityError → Log → Prop} (hf : ∀ a, v = .ok a → Keeps (Permitted c) (f a) h Q E)
    (hE : ∀ e, E e h) : Keeps (Permitted c) (check v >>= f) h Q E := by
  cases v with
  | ok a => exact hf a rfl
  | error e => exact ⟨hE e⟩

theorem keeps_orPath {v : Except CapacityPathError α} {f : α → Reconcile β} {Q : β → Log → Prop}
    {E : CapacityError → Log → Prop} (hf : ∀ a, Keeps (Permitted c) (f a) h Q E)
    (hE : ∀ e, E e h) : Keeps (Permitted c) (orPath v >>= f) h Q E := by
  cases v with
  | ok a => exact hf a
  | error e => exact ⟨hE (.path e)⟩

section LookUps

theorem looksUp_orKube (v : Except KubeError α) : LooksUp (orKube v) := by
  cases v <;> trivial

theorem looksUp_call {q : Request} (hq : q.looksUp = true) : LooksUp (call q) :=
  (uses_run_ask q).mpr hq

theorem looksUp_canWrite {group plural verb : String} : LooksUp (canWrite ns group plural verb) := by
  refine uses_run_bind (looksUp_call rfl) fun answer => ?_
  exact uses_run_bind (looksUp_orKube answer) fun _ => trivial

theorem looksUp_forbiddenVerb {group plural : String} (verbs : List String) :
    LooksUp (forbiddenVerb ns group plural verbs) := by
  induction verbs with
  | nil => trivial
  | cons verb verbs ih =>
    refine uses_run_bind looksUp_canWrite fun allowed => ?_
    cases allowed with
    | false => trivial
    | true => exact ih

theorem keeps_resolveVerdict (hns : c.ns = some ns) :
    Keeps (Permitted c) (resolveVerdict ns c) h (fun verdict h' => LookedUp h h' ∧ Heard c h' verdict)
      fun _ h' => LookedUp h h' := by
  unfold resolveVerdict resolveSpotSchedule
  refine Keeps.bind (Q := fun v h' => LookedUp h h' ∧
      (∀ verdict, v = .ok verdict → Heard c h' verdict) ∧
      ∀ e, v = .error e → ⟨.getProvider ns c.spec.schedule.name, .error e⟩ ∈ h')
    (E := fun _ h' => LookedUp h h') ?_ (fun v h' hv => ?_) fun _ _ hl => hl
  · refine Keeps.bind (Q := fun (installed : Except KubeError Unit) h' => LookedUp h h' ∧
        ∀ e, installed = .error e →
          ⟨.pinnedKind (groupVersion c.spec.schedule.apiVersion).1
            (groupVersion c.spec.schedule.apiVersion).2 c.spec.schedule.kind, .error e⟩ ∈ h')
      (E := fun _ h' => LookedUp h h') ?_ (fun installed h₁ hh₁ => ?_) fun _ _ hl => hl
    · refine keeps_ask_bind (.lookUp rfl) fun answer => keeps_pure ⟨.cons (.refl h) (by rfl) _, ?_⟩
      intro e he
      cases answer with
      | ok plural => cases he
      | error e' =>
        cases he
        exact List.mem_cons_self
    · obtain ⟨hl₁, hkind⟩ := hh₁
      cases installed with
      | error e =>
        refine keeps_pure ⟨hl₁, fun verdict hverdict => ?_, fun _ he => by cases he⟩
        cases hverdict
        exact .noKind (hkind e rfl)
      | ok _ =>
        refine keeps_ask_bind (.lookUp rfl) fun answer => ?_
        have hl₂ : LookedUp h (⟨.getProvider ns c.spec.schedule.name, answer⟩ :: h₁) :=
          hl₁.cons rfl answer
        match answer with
        | .error e =>
          refine keeps_pure ⟨hl₂, fun _ h => (by cases h), fun e' he => ?_⟩
          cases he
          exact List.mem_cons_self
        | .ok none =>
          refine keeps_pure ⟨hl₂, fun verdict hverdict => ?_, fun _ h => by cases h⟩
          cases hverdict
          exact .noObject hns List.mem_cons_self
        | .ok (some object) =>
          refine keeps_pure ⟨hl₂, fun verdict hverdict => ?_, fun _ h => by cases h⟩
          cases hverdict
          exact .object hns List.mem_cons_self
  · obtain ⟨hl, hok, herror⟩ := hv
    cases v with
    | ok verdict => exact keeps_pure ⟨hl, hok verdict rfl⟩
    | error e => exact keeps_pure ⟨hl, .failed hns (herror e rfl)⟩

theorem keeps_newCondition {type reason message : String} {status : Bool} {h₀ : Log}
    (hh : LookedUp h₀ h) :
    Keeps (Permitted c) (newCondition type status reason message) h (fun _ h' => LookedUp h₀ h')
      fun _ _ => False := by
  have hnow : Permitted c h .now := .lookUp rfl
  exact keeps_ask_bind hnow fun now => keeps_pure (hh.cons rfl now)

theorem keeps_computeConditions {d : CapacityDecision} {verdict : SpotScheduleVerdict}
    {target : TargetResolution} {written : Option Int} :
    Keeps (Permitted c) (computeConditions c d verdict target written) h
      (fun _ h' => LookedUp h h') fun _ _ => False := by
  have hstart : LookedUp h h := .refl h
  unfold computeConditions
  refine (keeps_newCondition hstart).bind (fun _ _ hready => ?_) fun _ _ hf => hf
  refine (keeps_newCondition hready).bind (fun _ _ hresolved => ?_) fun _ _ hf => hf
  refine (keeps_newCondition hresolved).bind (fun _ _ htarget => ?_) fun _ _ hf => hf
  refine (keeps_newCondition htarget).bind (fun _ _ hwritten => ?_) fun _ _ hf => hf
  refine (keeps_newCondition hwritten).bind (fun _ _ hcomplete => ?_) fun _ _ hf => hf
  exact (keeps_newCondition hcomplete).bind (fun _ _ hall => keeps_pure hall) fun _ _ hf => hf

end LookUps

section Observing

theorem not_writable_of_looksUp (hh : ∀ x ∈ h, x.1.looksUp = true) :
    objectSeen h = none ∧ foundWritable c h = false ∧ conflictSeen c h = false := by
  have hgrown : History.Grown (fun q => q.aside = true) ([] : Log) h :=
    ⟨h, by simp, fun x hx => aside_of_looksUp (hh x hx)⟩
  refine ⟨?_, ?_, ?_⟩
  · rw [objectSeen_grown hgrown]
    rfl
  · rw [foundWritable_grown hgrown]
    rfl
  · rw [conflictSeen_grown hgrown]
    rfl

theorem resolves_blocked (hh : ∀ x ∈ h, x.1.looksUp = true) (reason message : String) :
    Resolves c h (.blocked reason message) where
  writable := (not_writable_of_looksUp hh).2.1.symm
  apiResource := rfl
  object := by simp [TargetResolution.blocked]
  located _ hplural := by cases hplural

/-- What the resolution of the target leaves for the conflict check. -/
structure TargetKnown (c : ScheduledCapacity) (target : TargetResolution) (h : Log) : Prop where
  resolves : Resolves c h target
  untouched : Untouched h
  unasked : conflictSeen c h = false

theorem targetKnown_blocked (hh : ∀ x ∈ h, x.1.looksUp = true) (reason message : String) :
    TargetKnown c (.blocked reason message) h where
  resolves := resolves_blocked hh reason message
  untouched := untouched_of_looksUp hh
  unasked := (not_writable_of_looksUp hh).2.2

theorem keeps_resolveExisting {plural : String} (hns : c.ns = some ns)
    (hallowed : (groupVersion c.spec.target.apiVersion).1 ∈ allowedCapacityTargetApiGroups)
    (hserved : ⟨.pinnedKind (groupVersion c.spec.target.apiVersion).1
      (groupVersion c.spec.target.apiVersion).2 c.spec.target.kind, .ok plural⟩ ∈ h)
    (hh : ∀ x ∈ h, x.1.looksUp = true) :
    Keeps (Permitted c) (resolveExisting ns plural c) h (TargetKnown c) fun _ h' => Untouched h' := by
  refine keeps_ask_bind (.getObject hh) fun answer => ?_
  have hunasked : conflictSeen c h = false := (not_writable_of_looksUp hh).2.2
  have huntouched : Untouched (⟨.getObject plural ns c.name, answer⟩ :: h) := by
    intro x hx
    rcases List.mem_cons.mp hx with rfl | hx
    · rfl
    · exact reads_of_looksUp (hh x hx)
  cases answer with
  | error e => exact ⟨huntouched⟩
  | ok existing =>
    have hseen : objectSeen (⟨.getObject plural ns c.name, .ok existing⟩ :: h) = some existing := rfl
    have hasked : conflictSeen c (⟨.getObject plural ns c.name, .ok existing⟩ :: h) = false := hunasked
    have hlocated : (∀ object, existing = some object → isOwnedBy object c = true) →
        Located c (⟨.getObject plural ns c.name, .ok existing⟩ :: h) plural := fun howned =>
      ⟨hallowed, List.mem_cons_of_mem _ hserved, ns, existing, hns, List.mem_cons_self, howned⟩
    cases existing with
    | none =>
      have hlocated := hlocated fun _ h => by cases h
      refine keeps_pure ⟨⟨?_, rfl, fun _ => hseen, ?_⟩, huntouched, hasked⟩
      · simp [foundWritable, hseen]
      · rintro _ ⟨⟩
        exact hlocated
    | some object =>
      change Keeps _ (if !isOwnedBy object c then _ else _) _ _ _
      split
      · rename_i hforeign
        refine keeps_pure ⟨⟨?_, rfl, by simp [TargetResolution.blocked], ?_⟩, huntouched, hasked⟩
        · simpa [foundWritable, hseen, TargetResolution.blocked] using hforeign
        · rintro _ ⟨⟩
      · rename_i howned
        have howned : isOwnedBy object c = true := by simpa using howned
        have hlocated := hlocated fun object' h => by
          cases h
          exact howned
        refine keeps_pure ⟨⟨?_, rfl, fun _ => hseen, ?_⟩, huntouched, hasked⟩
        · simpa [foundWritable, hseen] using howned
        · rintro _ ⟨⟩
          exact hlocated

theorem keeps_resolveTarget (hns : c.ns = some ns) (hh : ∀ x ∈ h, x.1.looksUp = true) :
    Keeps (Permitted c) (resolveTarget ns c) h (TargetKnown c) fun _ h' => Untouched h' := by
  unfold resolveTarget
  dsimp only
  split
  · exact keeps_pure (targetKnown_blocked hh _ _)
  · rename_i hgroup
    refine keeps_ask_bind (.lookUp rfl) fun answer => ?_
    have hh₁ := looksUp_cons hh (by rfl) answer
    cases answer with
    | error e => exact keeps_pure (targetKnown_blocked hh₁ _ _)
    | ok plural =>
      refine (keeps_looksUp (looksUp_forbiddenVerb _)).bind (fun verb h₂ hgrown₂ => ?_)
        fun _ _ hgrown₂ => untouched_of_looksUp (hgrown₂.forall hh₁)
      have hh₂ : ∀ x ∈ h₂, x.1.looksUp = true := hgrown₂.forall hh₁
      cases verb with
      | some verb => exact keeps_pure (targetKnown_blocked hh₂ _ _)
      | none =>
        refine keeps_resolveExisting hns (by simpa [groupVersion] using hgroup) ?_ hh₂
        exact hgrown₂.mem List.mem_cons_self

theorem keeps_detectConflict {target : TargetResolution} (hknown : TargetKnown c target h) :
    Keeps (Permitted c) (detectHostGovernanceConflict ns c) h
      (fun conflict h' => Resolves c h' target ∧ Untouched h' ∧ conflict = conflictSeen c h')
      fun _ h' => Untouched h' := by
  unfold detectHostGovernanceConflict
  split
  · exact keeps_pure ⟨hknown.resolves, hknown.untouched, hknown.unasked.symm⟩
  · rename_i node hnode
    refine keeps_ask_bind (.listMachines hknown.untouched hknown.unasked) fun answer => ?_
    have huntouched : Untouched (⟨.listMachines ns, answer⟩ :: h) := by
      intro x hx
      rcases List.mem_cons.mp hx with rfl | hx
      · rfl
      · exact hknown.untouched x hx
    cases answer with
    | error e => exact ⟨huntouched⟩
    | ok machines =>
      have hwritable : foundWritable c (⟨.listMachines ns, .ok machines⟩ :: h) = foundWritable c h := rfl
      refine keeps_pure ⟨⟨?_, hknown.resolves.apiResource, hknown.resolves.object, ?_⟩, huntouched, ?_⟩
      · rw [hwritable]
        exact hknown.resolves.writable
      · exact fun plural hplural =>
          (hknown.resolves.located plural hplural).after fun _ => List.mem_cons_of_mem _
      · have hrest : h.any (showsConflict c) = false := hknown.unasked
        simp [conflictSeen, showsConflict, hnode, hrest]

theorem keeps_observeTarget {now : Instant} {verdict : SpotScheduleVerdict}
    {target : TargetResolution} (hverdict : Heard c h verdict) (hknown : TargetKnown c target h) :
    Keeps (Permitted c)
      (do
        let conflict ← detectHostGovernanceConflict ns c
        let handbackTimeout ← check (parseHandbackTimeout c)
        return ({ now, verdict, target, conflict, handbackTimeout,
                  observedDrained := readDrained target c.drainedPath } : Observation))
      h (fun o h' => Informed c h' o ∧ Untouched h') fun _ h' => Untouched h' := by
  refine (keeps_detectConflict hknown).keeping.bind (fun conflict h' hconflict => ?_) fun _ _ hu => hu
  obtain ⟨⟨hresolves, huntouched, heq⟩, hkept⟩ := hconflict
  refine keeps_checked (fun timeout _ => ?_) fun _ => huntouched
  exact keeps_pure ⟨⟨hverdict.after hkept, hresolves, rfl, heq⟩, huntouched⟩

theorem keeps_observe (hns : c.ns = some ns) (hh : ∀ x ∈ h, x.1.looksUp = true) :
    Keeps (Permitted c) (observe ns c) h (fun o h' => Informed c h' o ∧ Untouched h')
      fun _ h' => Untouched h' := by
  have hnow : Permitted c h .now := .lookUp rfl
  refine keeps_ask_bind hnow fun now => ?_
  have hh₁ : ∀ x ∈ (⟨.now, now⟩ :: h : Log), x.1.looksUp = true := looksUp_cons hh rfl now
  have hrest : ∀ h' : Log, (∀ x ∈ h', x.1.looksUp = true) →
      Keeps (Permitted c)
        (do
          let verdict ← resolveVerdict ns c
          let target ← resolveTarget ns c
          let conflict ← detectHostGovernanceConflict ns c
          let handbackTimeout ← check (parseHandbackTimeout c)
          return ({ now, verdict, target, conflict, handbackTimeout,
                    observedDrained := readDrained target c.drainedPath } : Observation))
        h' (fun o h' => Informed c h' o ∧ Untouched h') fun _ h' => Untouched h' := by
    intro h' hh'
    refine (keeps_resolveVerdict hns).bind (fun verdict h₂ hheard => ?_)
      fun _ _ hgrown => untouched_of_looksUp (hgrown.forall hh')
    obtain ⟨hgrown, hheard⟩ := hheard
    refine (keeps_resolveTarget hns (hgrown.forall hh')).keeping.bind (fun target h₃ hknown => ?_)
      fun _ _ hu => hu
    exact keeps_observeTarget (hheard.after hknown.2) hknown.1
  refine keeps_orPath (fun _ => ?_) fun _ => untouched_of_looksUp hh₁
  split
  · exact keeps_orPath (fun _ => hrest _ hh₁) fun _ => untouched_of_looksUp hh₁
  · exact hrest _ hh₁

end Observing

section Acting

variable {o : Observation}

theorem keeps_applyOwnedObject {value : Int} (hns : c.ns = some ns) (hi : Informed c h o)
    (hu : Untouched h) (hvalue : (decision c o).write = some value) :
    Keeps (Permitted c) (applyOwnedObject ns c o.target value) h
      (fun _ h' => Informed c h' o ∧ Written c o h') fun e h' => Returns c (.error e) h' := by
  unfold applyOwnedObject
  split
  · rename_i hnone
    exact keeps_pure ⟨hi, .unsent (by simp [hvalue]) hnone hu⟩
  · rename_i plural hplural
    refine keeps_checked (fun desired hdesired => ?_) fun e => .failed hu
    have happlies : Applies c o (.applyObject plural ns c.name desired) :=
      .mk hns hvalue hplural hdesired
    refine keeps_ask_bind (.apply hi hu happlies) fun answer => ?_
    cases answer with
    | error e => exact ⟨.notApplied hu⟩
    | ok _ =>
      have haside : History.Grown (fun q => q.aside = true) h
          (⟨.applyObject plural ns c.name desired, .ok ()⟩ :: h) := .cons (.refl h) (by rfl) _
      exact keeps_pure ⟨hi.grown haside, .applied happlies hu (.refl _)⟩

theorem keeps_writeDecided (hns : c.ns = some ns) (hi : Informed c h o) (hu : Untouched h) :
    Keeps (Permitted c) (writeDecided ns c o.target (decision c o)) h
      (fun written h' => written = recordedValue c o ∧ Informed c h' o ∧ Written c o h')
      fun e h' => Returns c (.error e) h' := by
  unfold writeDecided
  split
  · rename_i value hvalue
    refine (keeps_applyOwnedObject hns hi hu hvalue).bind (fun _ h' hw => ?_) fun _ _ he => he
    exact keeps_pure ⟨by simp [recordedValue, hvalue], hw⟩
  · rename_i hnone
    exact keeps_pure ⟨by simp [recordedValue, hnone], hi, .nothing hnone hu⟩

theorem keeps_patchStatus (hi : Informed c h o) (hw : Written c o h) :
    Keeps (Permitted c)
      (patchStatus ns c (decision c o) o.verdict o.target (recordedValue c o) o.observedDrained o.now)
      h (fun _ h' => Returns c (.ok (some o)) h') fun e h' => Returns c (.error e) h' := by
  refine keeps_computeConditions.bind (fun computed h' hgrown => ?_) fun _ _ hf => hf.elim
  have hi' : Informed c h' o := hi.grown (hgrown.mono fun _ => aside_of_looksUp)
  have hw' : Written c o h' := hw.grown hgrown
  have hstatus : buildStatusValue c (decision c o)
      ⟨recordedValue c o, o.observedDrained, targetRefValue c ns o.target, o.now⟩
      (mergeConditionTimestamps computed (c.status.elim [] fun s => s.conditions)) o.verdict =
      statusPatch c ns o
        (mergeConditionTimestamps computed (c.status.elim [] fun s => s.conditions)) := rfl
  dsimp only
  rw [hstatus]
  split
  · rename_i hsame
    exact keeps_pure (.kept hi' hw' hsame)
  · rename_i hdiffers
    refine keeps_ask_bind (.patch hi' hw' hdiffers) fun answer => ?_
    cases answer with
    | error e => exact ⟨.notPatched⟩
    | ok _ => exact ⟨.patched hi' hw'⟩

end Acting

theorem keeps_reconcileObserved :
    Keeps (Permitted c) (reconcileObserved c) [] (fun a h' => Returns c (.ok a) h')
      fun e h' => Returns c (.error e) h' := by
  have hleader : Permitted c [] .isLeader := .lookUp rfl
  refine keeps_ask_bind hleader fun leader => ?_
  have hh : ∀ x ∈ ([⟨.isLeader, leader⟩] : Log), x.1.looksUp = true := by
    intro x hx
    rcases List.mem_singleton.mp hx with rfl
    rfl
  cases leader with
  | false => exact keeps_pure (.standby (untouched_of_looksUp hh))
  | true =>
    rw [if_neg (by decide)]
    split
    · exact keeps_throw (.failed (untouched_of_looksUp hh))
    · rename_i ns hns
      refine (keeps_observe hns hh).bind (fun o h₁ ho => ?_) fun _ _ hu => .failed hu
      refine (keeps_writeDecided hns ho.1 ho.2).bind (fun written h₂ hw => ?_) fun _ _ he => he
      obtain ⟨rfl, hi, hw⟩ := hw
      exact (keeps_patchStatus hi hw).bind (fun _ _ hr => keeps_pure hr) fun _ _ he => he

theorem capacityContract_binds (w : World) :
    capacityContract.Binds w [] (capacitySystem.program w) := by
  refine (keeps_reconcileObserved (c := w.capacity)).meets.mono fun r h hr => ?_
  cases r <;> exact hr

end FiveSpot.Capacity
