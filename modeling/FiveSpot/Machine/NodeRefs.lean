import FiveSpot.Machine.Binding
import FiveSpot.Machine.Ordinary

/-!
# The Node of the status

One step of a reconcile writes `status.nodeRef`, from its own reading of the Machine object, and none takes
it out again. Whether it still names the Node of the Machine is therefore up to the surroundings.
-/

namespace FiveSpot.Machine

set_option autoImplicit false

open Effects Effects.Prog

section Reconcile

def Request.unbinding : Request → Bool
  | .patchStatus p => p.nodeRef.isNone
  | _ => true

/-- What a reconcile of `r` may call, as far as the Node of the status goes. -/
inductive Referring (r : ScheduledMachine) (h : Log) : Request → Prop where
  | aside {q : Request} : q.unbinding = true → Referring r h q
  | refer {ns : String} {machine : Json} : r.ns = some ns →
      ⟨.get (machineKey ns r.name), .ok machine⟩ ∈ h →
      Referring r h (.patchStatus
        { providerId := (extractMachineRefs machine).1, nodeRef := (extractMachineRefs machine).2 })

theorem Request.unbinding_of_reclaims {q : Request} (hq : q.reclaims = true) : q.unbinding = true := by
  cases q with
  | patchStatus p => exact ((Bool.and_eq_true _ _).mp hq).2
  | _ => rfl

theorem projecting_unbinding : Projecting Request.unbinding where
  still _ hq := Request.unbinding_of_reclaims (Request.reclaims_of_ordinary ((Bool.and_eq_true _ _).mp hq).2)
  taint _ _ _ _ := rfl
  record _ := rfl

variable {α : Type} {r : ScheduledMachine} {h : Log} {ns : String}

theorem refers_aside {x : Reconcile α} (hx : Calls Request.unbinding x) :
    Keeps (Referring r) x h (fun _ _ => True) fun _ _ => True :=
  ⟨meets_outcome_mono (uses_run_meets hx.uses fun _ _ _ hq => .aside hq) (fun _ _ _ => trivial)
    fun _ _ _ => trivial⟩

theorem refers_fetchCapiMachine (name : String) :
    Keeps (Referring r) (fetchCapiMachine ns name) h
      (fun found h' => ∀ machine, found = some machine → ⟨.get (machineKey ns name), .ok machine⟩ ∈ h')
      fun _ _ => True := by
  refine keeps_ask_bind (.aside rfl) fun x => ?_
  cases x with
  | ok machine =>
    refine keeps_pure ?_
    rintro _ ⟨⟩
    exact List.mem_cons_self
  | error e =>
    simp only
    split
    · exact keeps_pure (by rintro _ ⟨⟩)
    · exact keeps_throw trivial

theorem refers_patchMachineRefsStatus {machine : Json} (hns : r.ns = some ns)
    (hmem : ⟨.get (machineKey ns r.name), .ok machine⟩ ∈ h) :
    Keeps (Referring r)
      (patchMachineRefsStatus (extractMachineRefs machine).1 (extractMachineRefs machine).2) h
      (fun _ _ => True) fun _ _ => True := by
  unfold patchMachineRefsStatus
  split
  · exact keeps_pure trivial
  · refine keeps_ask_bind (.refer hns hmem) fun x => ?_
    cases x with
    | ok _ => exact keeps_pure trivial
    | error e => exact keeps_throw trivial

theorem refers_enrichActive (hns : r.ns = some ns) :
    Keeps (Referring r) (enrichActive r ns) h (fun _ _ => True) fun _ _ => True := by
  refine (refers_fetchCapiMachine r.name).attempt (fun found h₁ hfound => ?_)
    fun _ _ _ => keeps_pure trivial
  cases found with
  | none => exact keeps_pure trivial
  | some machine =>
    have hrest : ∀ h₂, Keeps (Referring r) (do
        provisionReclaimAgentBestEffort r (extractMachineRefs machine).2
        reconcileNodeTaintsBestEffort r (extractMachineRefs machine).2
        provisionKataConfigBestEffort r (extractMachineRefs machine).2) h₂ (fun _ _ => True)
        fun _ _ => True := fun _ => refers_aside (projecting_unbinding.calls_projections r _)
    exact (refers_patchMachineRefsStatus hns (hfound machine rfl)).attempt (fun _ h₂ _ => hrest h₂)
      fun _ h₂ _ => hrest h₂

end Reconcile

def referenceContract : Contract Request Response World (Except ReconcilerError Action) where
  answers _ _ _ := True
  permits w h q := Referring w.machine h q
  returns _ _ _ := True

theorem referenceContract_binds (w : World) :
    referenceContract.Binds w [] (machineSystem.program w) :=
  have hkeeps : Keeps (Referring w.machine) (reconcileScheduledMachine w.settings w.machine) []
      (fun _ _ => True) fun _ _ => True :=
    keeps_reconcile (fun _ _ hq => .aside (Request.unbinding_of_reclaims hq)) (fun _ _ _ => .aside rfl)
      fun _ _ hns => refers_enrichActive hns
  hkeeps.meets.mono fun _ _ _ => trivial

section Run

/-- The Node of the status, if there is one, is that of the Machine. -/
def NodeCurrent (w : World) : Prop :=
  ∀ nodeRef, w.machine.nodeRef = some nodeRef → machineNode w = some nodeRef.name

/-- A Node named by the status, or by a reading of the Machine that the reconcile in flight has made. -/
inductive Named (v : MachineView) : String → Prop where
  | status {nodeRef : NodeRef} : v.world.machine.nodeRef = some nodeRef → Named v nodeRef.name
  | reading {cur : Current Request Response World} {ns : String} {machine : Json} {nodeRef : NodeRef} :
      v.current = some cur → cur.snapshot.machine.ns = some ns →
      ⟨.get (machineKey ns cur.snapshot.machine.name), .ok machine⟩ ∈ cur.done →
      (extractMachineRefs machine).2 = some nodeRef → Named v nodeRef.name

/-- Others write no Node into the status, and as long as a Node is named they neither take the Machine
bound to it away nor bind it elsewhere. -/
def referenceGuard : MachineGuard where
  move v w := SameName v.world.machine w.machine ∧
    (∀ nodeRef, w.machine.nodeRef = some nodeRef → v.world.machine.nodeRef = some nodeRef) ∧
    ∀ n, Named v n → machineNode v.world = some n → machineNode w = some n
  start _ := True
  call _ _ _ := True
  crash _ := True

structure NamesCurrent (v : MachineView) : Prop where
  same : ∀ cur, v.current = some cur → SameName cur.snapshot.machine v.world.machine
  named : ∀ n, Named v n → machineNode v.world = some n

theorem NamesCurrent.nodeCurrent {v : MachineView} (hv : NamesCurrent v) : NodeCurrent v.world :=
  fun _ href => hv.named _ (.status href)

theorem NamesCurrent.idle {v : MachineView} (hcur : v.current = none) (hw : NodeCurrent v.world) :
    NamesCurrent v where
  same cur h := by cases hcur.symm.trans h
  named n hn := by
    cases hn with
    | status href => exact hw _ href
    | reading h => cases hcur.symm.trans h

theorem nodeRef_patchStatus (w : World) (p : StatusPatch) :
    (w.patchStatus p).machine.nodeRef =
      (p.nodeRef.map fun r => r.merge w.machine.nodeRef).or w.machine.nodeRef := by
  unfold ScheduledMachine.nodeRef World.patchStatus
  cases w.machine.status <;> rfl

theorem nodeRef_machineAfter {w : World} {q : Request} {c : Answer} {nodeRef : NodeRef}
    (h : (machineAfter w q c).nodeRef = some nodeRef) :
    w.machine.nodeRef = some nodeRef ∨
      ∃ p written, q = .patchStatus p ∧ p.nodeRef = some written ∧ written.name = nodeRef.name := by
  cases q with
  | patchStatus p =>
    simp only [machineAfter] at h
    split at h
    · rw [nodeRef_patchStatus] at h
      cases hp : p.nodeRef with
      | none => exact Or.inl (by simpa [hp] using h)
      | some written =>
        refine Or.inr ⟨p, written, rfl, hp, ?_⟩
        rw [hp] at h
        cases h
        rfl
    · exact Or.inl h
  | _ =>
    unfold ScheduledMachine.nodeRef at h ⊢
    rw [status_machineAfter c (by simp)] at h
    exact Or.inl h

theorem NamesCurrent.named_called {v : MachineView} {cur : Current Request Response World} {q : Request}
    {c : Answer} (hv : NamesCurrent v) (hcur : v.current = some cur)
    (hq : Referring cur.snapshot.machine cur.done q) {n : String}
    (hn : Named (v.called machineSystem cur q c) n) : machineNode v.world = some n := by
  cases hn with
  | @status nodeRef href =>
    have href : (machineAfter v.world q c).nodeRef = some nodeRef := exec_machine v.world q c ▸ href
    rcases nodeRef_machineAfter href with href | ⟨p, written, rfl, hwritten, hname⟩
    · exact hv.named _ (.status href)
    · rw [← hname]
      cases hq with
      | aside hq => simp [Request.unbinding, hwritten] at hq
      | refer hns hmem => exact hv.named _ (.reading hcur hns hmem hwritten)
  | @reading cur' ns machine nodeRef hcur' hns hmem href =>
    obtain rfl : _ = cur' := Option.some.inj hcur'
    simp only at hns hmem
    rcases List.mem_cons.mp hmem with heq | hmem
    · obtain ⟨rfl, hanswer⟩ := Sigma.mk.inj heq
      have hsame := hv.same cur hcur
      refine machineNode_eq_some.mpr ⟨ns, hsame.ns.trans hns, ?_⟩
      rw [hsame.name]
      exact nodeOf_of_get (eq_of_heq hanswer).symm href
    · exact hv.named _ (.reading hcur hns hmem href)

theorem namesCurrent_preserved : referenceContract.Preserves machineSystem referenceGuard NamesCurrent where
  move v w hv hG := by
    refine ⟨fun cur hcur => (hv.same cur hcur).trans hG.1, fun n hn => ?_⟩
    have hn : Named v n := by
      cases hn with
      | status href => exact .status (hG.2.1 _ href)
      | reading hcur hns hmem href => exact .reading hcur hns hmem href
    exact hG.2.2 n hn (hv.named n hn)
  start v hv hcur _ := by
    refine ⟨referenceContract_binds _, ?_, fun n hn => ?_⟩
    · rintro cur ⟨⟩
      exact ⟨rfl, rfl⟩
    · cases hn with
      | status href => exact hv.named _ (.status href)
      | reading hcur hns hmem href =>
        cases hcur
        cases hmem
  call v cur q c hv hcur hq _ := by
    refine ⟨trivial, ?_, fun n hn => machineNode_exec q c (hv.named_called hcur hq hn)⟩
    rintro cur' ⟨⟩
    exact (hv.same cur hcur).trans
      ((exec_machine v.world q c).symm ▸ (sameIdentity_machineAfter v.world q c).sameName)
  finish v cur a hv hcur _ := .idle rfl hv.nodeCurrent
  crash v hv _ := .idle rfl hv.nodeCurrent

/-- In a run in which the surroundings leave what is named in place, the status goes on naming the Node of
the Machine. -/
theorem nodeCurrent_run {w : World} (hw : NodeCurrent w) {es : List (Event World Answer)}
    (hes : referenceGuard.Allows machineSystem (.idle w) es) :
    NodeCurrent (machineSystem.run (.idle w) es).world := by
  have hinit : NamesCurrent ⟨w, [], none⟩ := .idle rfl hw
  exact (namesCurrent_preserved.run_idle hinit hes).nodeCurrent

end Run

end FiveSpot.Machine
