import FiveSpot.Machine.RapidReclaim

/-!
# A reclaim request is not lost

An emergency reclaim takes the request off the Node after it has removed the machine and switched the
schedule off, so that a reconcile that fails or is killed on the way is repeated by the next one. In
every run the request stays on the Node until the schedule is off.
-/

namespace FiveSpot.Machine

set_option autoImplicit false

open Effects Effects.Prog

section Order

def Request.sparesRequest : Request → Bool
  | .patchNode _ _ p => p.annotations.all fun (key, _) => key != reclaimRequestedAnnotation
  | _ => true

theorem Request.sparesRequest_of_neutral {q : Request} (hq : q.neutral = true) :
    q.sparesRequest = true := by
  cases q with
  | patchNode client name p => exact hq
  | _ => rfl

/-- The request is taken off a Node only once the schedule is known to be off. -/
inductive Ordered : Log → Request → Prop where
  | aside {h : Log} {q : Request} : q.sparesRequest = true → Ordered h q
  | clear {h : Log} {client : Client} {node : String} : ⟨.patchDisableSchedule, .ok ()⟩ ∈ h →
      Ordered h (.patchNode client node buildClearReclaimPatch)

variable {α : Type} {h : Log}

theorem ordered_of_spares {x : Reconcile α} (hx : Calls Request.sparesRequest x) :
    Keeps Ordered x h (fun _ h' => ∀ y ∈ h, y ∈ h') fun _ _ => True := by
  have hcalls : Keeps Ordered x h (fun _ _ => True) fun _ _ => True :=
    ⟨meets_outcome_mono (uses_run_meets hx.uses fun _ _ _ => .aside) (fun _ _ _ => trivial)
      fun _ _ _ => trivial⟩
  exact hcalls.keeping.weaken (fun _ _ hq => hq.2) fun _ _ _ => trivial

theorem ordered_bind {β : Type} {x : Reconcile α} {f : α → Reconcile β}
    (hx : Calls Request.sparesRequest x)
    (hf : ∀ a h', (∀ y ∈ h, y ∈ h') → Keeps Ordered (f a) h' (fun _ _ => True) fun _ _ => True) :
    Keeps Ordered (x >>= f) h (fun _ _ => True) fun _ _ => True :=
  (ordered_of_spares hx).then hf

theorem Calls.spares {x : Reconcile α} (hx : Ordinary x) : Calls Request.sparesRequest x :=
  hx.mono fun _ hq => Request.sparesRequest_of_neutral (Request.neutral_of_ordinary hq)

theorem spares_publish (event : KubeEvent) : Calls Request.sparesRequest (publishBestEffort event) :=
  calls_publish rfl

theorem ordered_finishEmergencyRemove (s : Settings) (r : ScheduledMachine) (ns : String)
    (client : Client) (node : String) :
    Keeps Ordered (finishEmergencyRemove s r ns client node) h (fun _ _ => True) fun _ _ => True := by
  refine ordered_bind (phaseless_removeMachine s r ns).ordinary.spares fun _ h₁ _ => ?_
  refine keeps_ask_bind (.aside rfl) fun x => ?_
  cases x with
  | error e => exact keeps_throw trivial
  | ok _ =>
    refine (ordered_of_spares (spares_publish _)).then fun _ h₂ hkept => ?_
    refine keeps_ask_bind (.clear (hkept _ List.mem_cons_self)) fun x => ?_
    exact ordered_bind (ordinary_recordPhase _ _ _ _ _ _ _).spares fun _ _ _ => keeps_pure trivial

theorem ordered_handleEmergencyRemove (s : Settings) (r : ScheduledMachine) (node : String)
    (request : ReclaimRequest) :
    Keeps Ordered (handleEmergencyRemove s r node request) h (fun _ _ => True) fun _ _ => True := by
  have hnote : Calls Request.sparesRequest (noteReclaim r) := by
    refine (calls_call rfl).bind fun now => (calls_call rfl).bind fun breach => ?_
    split
    · exact spares_publish _
    · exact calls_pure _
  refine ordered_bind (calls_namespaceOf r) fun ns h₁ _ => ?_
  refine ordered_bind (spares_publish _) fun _ h₂ _ => ?_
  refine ordered_bind (ordinary_recordPhase _ _ _ _ _ _ _).spares fun _ h₃ _ => ?_
  refine ordered_bind hnote fun _ h₄ _ => ?_
  refine ordered_bind (calls_call rfl) fun x h₅ _ => ?_
  refine ordered_bind (calls_check x) fun client h₆ _ => ?_
  exact ordered_bind (phaseless_drain _ _ _).ordinary.spares.attempt fun _ h₇ _ =>
    ordered_finishEmergencyRemove s r ns client node

theorem ordered_checkEmergencyReclaim (s : Settings) (r : ScheduledMachine) :
    Keeps Ordered (checkEmergencyReclaim s r) h (fun _ _ => True) fun _ _ => True := by
  unfold checkEmergencyReclaim
  split
  · exact keeps_pure trivial
  · split
    · exact keeps_pure trivial
    · refine ordered_bind (calls_call rfl) fun x h₁ _ => ?_
      refine ordered_bind (calls_check x) fun client h₂ _ => ?_
      refine ordered_bind (calls_call rfl) fun answer h₃ _ => ?_
      split
      · split
        · exact keeps_pure trivial
        · exact keeps_throw trivial
      · split
        · exact keeps_pure trivial
        · exact (ordered_handleEmergencyRemove s r _ _).then fun _ _ _ => keeps_pure trivial

theorem ordered_reconcile (s : Settings) (r : ScheduledMachine) :
    Keeps Ordered (reconcileScheduledMachine s r) [] (fun _ _ => True) fun _ _ => True := by
  have husual : ∀ {h : Log} {q : Request}, Usual r q → Ordered h q := by
    intro h q hq
    cases hq with
    | ordinary hq =>
      exact .aside (Request.sparesRequest_of_neutral (Request.neutral_of_ordinary hq))
    | finalizers _ => exact .aside rfl
  have hA : Admits r Ordered fun _ => True := ⟨fun _ hq => husual hq, fun _ _ _ => trivial⟩
  refine hA.reconcile (fun _ _ => trivial) (fun ns h _ _ => ?_) trivial fun h _ => ?_
  · have henrich : Calls Request.sparesRequest (enrichActive r ns) :=
      (enriching_neutral.calls_enrichActive r ns).mono fun _ => Request.sparesRequest_of_neutral
    exact (ordered_of_spares henrich).weaken (fun _ _ _ => trivial) fun _ _ _ => trivial
  · refine (ordered_checkEmergencyReclaim s r).weaken (fun outcome _ _ => ?_) fun _ _ _ => trivial
    cases outcome <;> trivial

end Order

def orderContract : Contract Request Response World (Except ReconcilerError Action) where
  answers _ _ _ := True
  permits _ h q := Ordered h q
  returns _ _ _ := True

theorem orderContract_binds (w : World) : orderContract.Binds w [] (machineSystem.program w) :=
  (ordered_reconcile w.settings w.machine).meets.mono fun _ _ _ => trivial

section Runs

/-- Nobody else takes a request off a Node or the Node away, and nobody enables the schedule. -/
def requestGuard : MachineGuard where
  move v w := (∀ client node, (requestAt v.world client node).isSome = true →
      (requestAt w client node).isSome = true) ∧
    (v.world.machine.spec.enabled = false → w.machine.spec.enabled = false)
  start _ := True
  call _ _ _ := True
  crash _ := True

variable {w : World} {cur : Current Request Response World} {q : Request} {c : Answer}
  {client : Client} {node : String}

/-- A reconcile that had the schedule switched off finds it off. -/
def SwitchedOff (v : MachineView) : Prop :=
  ∀ cur, v.current = some cur → ⟨.patchDisableSchedule, .ok ()⟩ ∈ cur.done →
    v.world.machine.spec.enabled = false

theorem disabled_of_answer (h : (w.exec .patchDisableSchedule c).1 = .ok ()) :
    (machineAfter w .patchDisableSchedule c).spec.enabled = false := by
  obtain ⟨rfl, _⟩ := writeAnswer_fst_eq_ok h
  rfl

theorem switchedOff_preserved : orderContract.Preserves machineSystem requestGuard SwitchedOff where
  move v w hS hG := fun cur hcur hmem => hG.2 (hS cur hcur hmem)
  start v _ _ _ := by
    refine ⟨orderContract_binds _, ?_⟩
    rintro cur ⟨⟩ hmem
    cases hmem
  call v cur q c hS hcur _ _ := by
    refine ⟨trivial, ?_⟩
    rintro cur' ⟨⟩ hmem
    show (v.world.exec q c).2.machine.spec.enabled = false
    rw [exec_machine]
    rcases List.mem_cons.mp hmem with hnow | hmem
    · obtain ⟨rfl, hanswer⟩ := Sigma.mk.inj hnow
      exact disabled_of_answer (eq_of_heq hanswer).symm
    · exact enabled_machineAfter q c (hS cur hcur hmem)
  finish v cur a _ _ _ := fun cur' h => by cases h
  crash v _ _ := fun cur' h => by cases h

theorem requestAt_of_spares (hq : q.sparesRequest = true) (hreq : (requestAt w client node).isSome = true) :
    (requestAt (w.exec q c).2 client node).isSome = true := by
  unfold requestAt at hreq ⊢
  rw [exec_nodes]
  cases q with
  | patchNode client' name p =>
    have hp : ∀ n, (nodeReclaimRequest n).isSome = true → (nodeReclaimRequest (p.apply n)).isSome = true := by
      intro n hn
      simpa [nodeReclaimRequest, NodePatch.apply, lookup_applyMap hq] using hn
    simp only [nodesAfter]
    split
    · by_cases hclient : client = client'
      · subst hclient
        by_cases hname : node = name
        · subst hname
          rw [Function.update_self, Function.update_self]
          cases hn : w.nodes client node with
          | none => simp [hn] at hreq
          | some n => exact hp n (by simpa [hn] using hreq)
        · rw [Function.update_self, Function.update_of_ne hname]
          exact hreq
      · rw [Function.update_of_ne hclient]
        exact hreq
    · exact hreq
  | _ => exact hreq

/-- From here on the request is on the Node, or the schedule is off. -/
structure Outlasts (client : Client) (node : String) (v : MachineView) : Prop where
  switchedOff : SwitchedOff v
  request : (requestAt v.world client node).isSome = true ∨ v.world.machine.spec.enabled = false

theorem outlasts_preserved (client : Client) (node : String) :
    orderContract.Preserves machineSystem requestGuard (Outlasts client node) where
  move v w hO hG :=
    ⟨switchedOff_preserved.move v w hO.switchedOff hG, hO.request.imp (hG.1 client node) hG.2⟩
  start v hO hidle hG := by
    obtain ⟨hbinds, hS⟩ := switchedOff_preserved.start v hO.switchedOff hidle hG
    exact ⟨hbinds, hS, hO.request⟩
  call v cur q c hO hcur hq hG := by
    have hS := (switchedOff_preserved.call v cur q c hO.switchedOff hcur hq hG).2
    have hoff : v.world.machine.spec.enabled = false →
        (v.called machineSystem cur q c).world.machine.spec.enabled = false := by
      intro hoff
      show (v.world.exec q c).2.machine.spec.enabled = false
      rw [exec_machine]
      exact enabled_machineAfter q c hoff
    refine ⟨trivial, hS, ?_⟩
    cases hq with
    | aside hq => exact hO.request.imp (requestAt_of_spares hq) hoff
    | clear hmem => exact Or.inr (hoff (hO.switchedOff cur hcur hmem))
  finish v cur a hO hcur hret :=
    ⟨switchedOff_preserved.finish v cur a hO.switchedOff hcur hret, hO.request⟩
  crash v hO hG := ⟨switchedOff_preserved.crash v hO.switchedOff hG, hO.request⟩

/-- Whatever fails and wherever the process is killed, a request that is on a Node stays there until the
schedule is off. -/
theorem request_outlasts_schedule (w : World) (es es' : List (Event World Answer)) (client : Client)
    (node : String) (hes : requestGuard.Allows machineSystem (.idle w) (es ++ es'))
    (hreq : (requestAt (machineSystem.run (.idle w) es).world client node).isSome = true) :
    (requestAt (machineSystem.run (.idle w) (es ++ es')).world client node).isSome = true ∨
      (machineSystem.run (.idle w) (es ++ es')).world.machine.spec.enabled = false := by
  obtain ⟨hfirst, hsecond⟩ := Guard.allows_append.mp hes
  have hinit : SwitchedOff (⟨w, [], none⟩ : MachineView) := fun cur h => by cases h
  obtain ⟨hS, hgoverns⟩ :=
    switchedOff_preserved.run (c := .idle w) hinit Contract.governs_idle hfirst
  obtain ⟨hO, -⟩ := (outlasts_preserved client node).run ⟨hS, Or.inl hreq⟩ hgoverns hsecond
  rw [System.run_append]
  exact hO.request

def sampleAsked : World := requestSample sampleJoined.world

/-- The process is killed before the schedule is switched off; the request is there for the next
reconcile, which switches it off and takes the request away. -/
theorem request_outlasts_killed_reconcile :
    let es := reconcileFor 15 ++ [.crash]
    (requestAt (machineSystem.run (.idle sampleAsked) es).world .management "node-1").isSome = true ∧
      (machineSystem.run (.idle sampleAsked) es).world.machine.spec.enabled = true ∧
      requestAt (machineSystem.run (.idle sampleAsked) (es ++ reconcileFor 30)).world .management
        "node-1" = none ∧
      ((requestAt (machineSystem.run (.idle sampleAsked) (es ++ reconcileFor 30)).world .management
          "node-1").isSome = true ∨
        (machineSystem.run (.idle sampleAsked) (es ++ reconcileFor 30)).world.machine.spec.enabled =
          false) := by
  intro es
  have hrun : (requestAt (machineSystem.run (.idle sampleAsked) es).world .management
        "node-1").isSome = true ∧
      (machineSystem.run (.idle sampleAsked) es).world.machine.spec.enabled = true ∧
      requestAt (machineSystem.run (.idle sampleAsked) (es ++ reconcileFor 30)).world .management
        "node-1" = none := by
    decide +kernel
  refine ⟨hrun.1, hrun.2.1, hrun.2.2, ?_⟩
  refine request_outlasts_schedule sampleAsked es (reconcileFor 30) .management "node-1" ?_ hrun.1
  exact Guard.allows_of_unmoved (fun _ => trivial) (fun _ _ _ => trivial) (fun _ => trivial) rfl

end Runs

end FiveSpot.Machine
