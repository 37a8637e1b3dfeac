import FiveSpot.Machine.Ordinary
import FiveSpot.Machine.Taints

/-!
# What a reconcile does to taints

Only one step of a reconcile reaches the taints of a Node or the record of them: after two readings of
the Node it sends the list made from both. Everything else leaves them alone.
-/

namespace FiveSpot.Machine

set_option autoImplicit false

open Effects Effects.Prog

/-- A call that leaves the taints of Nodes and the record of them alone. -/
def Request.plain : Request → Bool
  | .patchNode _ _ p => p.taints.isNone
  | .patchStatus p => p.appliedNodeTaints.isNone
  | _ => true

def recordedTaints (r : ScheduledMachine) : List NodeTaint :=
  r.status.elim [] fun s => s.appliedNodeTaints

def taintPlan (r : ScheduledMachine) (node : Node) : NodeTaintPlan :=
  diffNodeTaints node.taints r.spec.nodeTaints (recordedTaints r)

def taintPatch (plan : NodeTaintPlan) (node : Node) : NodePatch where
  annotations := [( appliedTaintsAnnotation, some (ownedTaintsValue plan))]
  taints := some (targetTaints node.taints plan)

/-- What a reconcile of `r` may call, as far as taints go. -/
inductive Tainted (r : ScheduledMachine) : Log → Request → Prop where
  | plain {h : Log} {q : Request} : q.plain = true → Tainted r h q
  | apply {h : Log} {client : Client} {name : String} {first second : Node} :
      (taintPlan r first).conflicts = [] → (taintPlan r first).isNoop = false →
      Tainted r (⟨.getNode client name, .ok second⟩ :: ⟨.getNode client name, .ok first⟩ :: h)
        (.patchNode client name (taintPatch (taintPlan r first) second))
  | record {h : Log} : Tainted r h (.patchStatus { appliedNodeTaints := some r.spec.nodeTaints })

abbrev Plain {α : Type} (x : Reconcile α) : Prop := Calls Request.plain x

section Plain

theorem Request.plain_of_reclaims {q : Request} (hq : q.reclaims = true) : q.plain = true := by
  cases q with
  | patchStatus p => exact ((Bool.and_eq_true _ _).mp hq).1
  | patchNode client name p => exact hq
  | _ => rfl

theorem Calls.plain {α : Type} {x : Reconcile α} (hx : Calls Request.reclaims x) : Plain x :=
  hx.mono fun _ => Request.plain_of_reclaims

end Plain

section Keeps

variable {α β : Type} {r : ScheduledMachine} {h : Log}

/-- Only calls that are in order as far as taints go, nothing said about the end. -/
abbrev InOrder (r : ScheduledMachine) (x : Reconcile α) (h : Log) : Prop :=
  Keeps (Tainted r) x h (fun _ _ => True) fun _ _ => True

theorem inOrder_plain {x : Reconcile α} (hx : Plain x) : InOrder r x h :=
  ⟨meets_outcome_mono (uses_run_meets hx.uses fun _ _ _ hq => .plain hq) (fun _ _ _ => trivial)
    fun _ _ _ => trivial⟩

theorem inOrder_ordinary {x : Reconcile α} (hx : Ordinary x) : InOrder r x h :=
  inOrder_plain hx.reclaims.plain

theorem inOrder_bind {x : Reconcile α} {f : α → Reconcile β} (hx : Ordinary x)
    (hf : ∀ a h', InOrder r (f a) h') : InOrder r (x >>= f) h :=
  (inOrder_ordinary hx).then fun a h' _ => hf a h'

theorem keeps_reconcileNodeTaints (client : Client) (name : String) :
    Keeps (Tainted r) (reconcileNodeTaints client name r.spec.nodeTaints (recordedTaints r)) h
      (fun outcome _ => ∀ taints, outcome = .applied taints → taints = r.spec.nodeTaints)
      fun _ _ => True := by
  refine keeps_ask_bind (.plain rfl) fun x => ?_
  split
  · split
    · exact keeps_pure (by rintro _ ⟨⟩)
    · exact keeps_throw trivial
  · rename_i first
    split
    · exact keeps_pure (by rintro _ ⟨⟩)
    · simp only
      split
      · exact keeps_pure (by rintro _ ⟨⟩)
      · rename_i hconflicts
        refine Keeps.bind (Q := fun _ _ => True) (E := fun _ _ => True) ?_ (fun _ _ _ => ?_)
          fun _ _ _ => trivial
        · unfold applyNodeTaints
          split
          · exact keeps_pure trivial
          · rename_i hnoop
            refine keeps_ask_bind (.plain rfl) fun y => ?_
            cases y with
            | error e => exact keeps_throw trivial
            | ok second =>
              have hpatch : Tainted r
                  (⟨.getNode client name, .ok second⟩ :: ⟨.getNode client name, .ok first⟩ :: h)
                  (.patchNode client name (taintPatch (taintPlan r first) second)) :=
                .apply (by simpa [taintPlan] using hconflicts) (by simpa [taintPlan] using hnoop)
              refine keeps_ask_bind hpatch fun z => ?_
              cases z with
              | error e => exact keeps_throw trivial
              | ok _ => exact keeps_pure trivial
        · exact keeps_pure (by rintro _ ⟨⟩; rfl)

theorem inOrder_recordNodeTaints (client : Client) (name : String) :
    InOrder r (recordNodeTaints r.spec.nodeTaints (recordedTaints r) client name) h := by
  refine (keeps_reconcileNodeTaints client name).then fun outcome h' hout => ?_
  split
  · rename_i taints
    obtain rfl := hout taints rfl
    split
    · exact keeps_pure trivial
    · refine keeps_ask_bind .record fun x => ?_
      cases x with
      | error e => exact keeps_throw trivial
      | ok _ => exact keeps_pure trivial
  · exact keeps_pure trivial

theorem inOrder_onNode {nodeRef : Option NodeRef} {step : Client → String → Reconcile Unit}
    (hstep : ∀ client name h', InOrder r (step client name) h') : InOrder r (onNode nodeRef step) h := by
  unfold onNode
  split
  · exact keeps_pure trivial
  · split
    · exact keeps_pure trivial
    · refine keeps_ask_bind (.plain rfl) fun x => ?_
      split
      · exact keeps_pure trivial
      · exact (hstep _ _ _).attempt (fun _ _ _ => keeps_pure trivial) fun _ _ _ => keeps_pure trivial

theorem inOrder_reconcileNodeTaintsBestEffort (nodeRef : Option NodeRef) :
    InOrder r (reconcileNodeTaintsBestEffort r nodeRef) h := by
  unfold reconcileNodeTaintsBestEffort
  simp only
  split
  · exact keeps_pure trivial
  · split
    · exact keeps_pure trivial
    · exact inOrder_onNode fun client name _ => inOrder_recordNodeTaints client name

theorem inOrder_enrichActive (ns : String) : InOrder r (enrichActive r ns) h := by
  refine inOrder_bind (still_fetchCapiMachine ns r.name).ordinary.attempt fun fetched h' => ?_
  split
  · have hrefs : ∀ providerId nodeRef, Plain (patchMachineRefsStatus providerId nodeRef) := by
      intro providerId nodeRef
      unfold patchMachineRefsStatus
      split
      · exact calls_pure _
      · exact (calls_call rfl).bind calls_orKubeError
    refine (inOrder_plain (hrefs _ _).attempt).then fun _ _ _ => ?_
    refine inOrder_bind (calls_onNode rfl _ fun _ _ =>
      (still_reclaimAgentProvision _ _ _).ordinary) fun _ _ => ?_
    refine (inOrder_reconcileNodeTaintsBestEffort _).then fun _ _ _ => ?_
    exact inOrder_ordinary (calls_onNode rfl _ fun _ _ =>
      (still_kataConfigDelivery _ _ _).ordinary.bind fun _ => calls_pure _)
  · exact keeps_pure trivial

theorem inOrder_reconcile (s : Settings) : InOrder r (reconcileScheduledMachine s r) h :=
  keeps_reconcile (fun _ _ hq => .plain (Request.plain_of_reclaims hq)) (fun _ _ _ => .plain rfl)
    fun ns _ _ => inOrder_enrichActive ns

end Keeps

def taintContract : Contract Request Response World (Except ReconcilerError Action) where
  answers _ _ _ := True
  permits w h q := Tainted w.machine h q
  returns _ _ _ := True

theorem taintContract_binds (w : World) :
    taintContract.Binds w [] (machineSystem.program w) :=
  have horder : InOrder w.machine (reconcileScheduledMachine w.settings w.machine) [] :=
    inOrder_reconcile w.settings
  horder.meets.mono fun _ _ _ => trivial

end FiveSpot.Machine
