import Mathlib.Data.List.Dedup
import FiveSpot.Machine.Frame
import FiveSpot.Machine.LoopProtection
import FiveSpot.Machine.ReclaimFlow

/-!
# Warnings of rapid reclaims

Three reclaims within ten minutes are answered by a warning. What is counted are reconciles that got as
far as the count; what the warning speaks of are requests written to Nodes. Every counted reclaim is
attributed here to the write of the request it answers, as the trace shows it.
-/

namespace FiveSpot.Machine

set_option autoImplicit false

open Effects

section Requests

def requestAt (w : World) (client : Client) (node : String) : Option ReclaimRequest :=
  (w.nodes client node).bind nodeReclaimRequest

theorem lookup_applyMap {m : StringMap} {changes : List (String × Option String)} {k : String}
    (hchanges : (changes.all fun (key, _) => key != k) = true) :
    (applyMap m changes).lookup k = m.lookup k := by
  induction changes generalizing m with
  | nil => rfl
  | cons change changes ih =>
    obtain ⟨key, value⟩ := change
    obtain ⟨hkey, hchanges⟩ := (Bool.and_eq_true _ _).mp hchanges
    have hne : k ≠ key := fun h => by simp [h] at hkey
    refine (ih hchanges).trans ?_
    cases value with
    | some value => simp [StringMap.lookup_insert, hne]
    | none => simp [StringMap.lookup_filter_ne, hne]

theorem nodeReclaimRequest_eq_none_iff {n : Node} :
    nodeReclaimRequest n = none ↔
      n.annotations.lookup reclaimRequestedAnnotation ≠ some reclaimRequestedValue := by
  simp [nodeReclaimRequest]

theorem nodeReclaimRequest_clear (n : Node) : nodeReclaimRequest (buildClearReclaimPatch.apply n) = none := by
  rw [nodeReclaimRequest_eq_none_iff]
  have hkey : (applyMap n.annotations buildClearReclaimPatch.annotations).lookup
      reclaimRequestedAnnotation = none := by
    rw [show applyMap n.annotations buildClearReclaimPatch.annotations =
        applyMap (n.annotations.filter fun entry => entry.1 != reclaimRequestedAnnotation)
          [( reclaimReasonAnnotation, none), ( reclaimRequestedAtAnnotation, none)] from rfl,
      lookup_applyMap (by decide), StringMap.lookup_filter_ne, if_pos rfl]
  simp [NodePatch.apply, hkey]

variable {w : World} {q : Request} {c : Answer} {client : Client} {node : String}

theorem requestAt_exec
    (hq : ∀ client name p n, q = .patchNode client name p → nodeReclaimRequest n = none →
      nodeReclaimRequest (p.apply n) = none)
    (hnone : requestAt w client node = none) : requestAt (w.exec q c).2 client node = none := by
  unfold requestAt at hnone ⊢
  rw [exec_nodes]
  cases q with
  | patchNode client' name p =>
    simp only [nodesAfter]
    split
    · by_cases hclient : client = client'
      · subst hclient
        by_cases hname : node = name
        · subst hname
          rw [Function.update_self, Function.update_self]
          cases hn : w.nodes client node with
          | none => rfl
          | some n => exact hq client node p n rfl (by simpa [hn] using hnone)
        · rw [Function.update_self, Function.update_of_ne hname]
          exact hnone
      · rw [Function.update_of_ne hclient]
        exact hnone
    · exact hnone
  | _ => exact hnone

theorem requestAt_exec_of_neutral (hq : q.neutral = true) (hnone : requestAt w client node = none) :
    requestAt (w.exec q c).2 client node = none := by
  refine requestAt_exec (fun client name p n hp hn => ?_) hnone
  subst hp
  rw [nodeReclaimRequest_eq_none_iff] at hn ⊢
  simpa [NodePatch.apply, lookup_applyMap hq] using hn

theorem requestAt_exec_clear (client' : Client) (node' : String) (hnone : requestAt w client node = none) :
    requestAt (w.exec (.patchNode client' node' buildClearReclaimPatch) c).2 client node = none := by
  refine requestAt_exec (fun client name p n hp _ => ?_) hnone
  cases hp
  exact nodeReclaimRequest_clear n

theorem requestAt_cleared :
    requestAt (w.exec (.patchNode client node buildClearReclaimPatch) .ok).2 client node = none := by
  unfold requestAt
  rw [exec_nodes]
  rw [nodesAfter, Answer.applied, if_pos rfl, Function.update_self, Function.update_self]
  cases w.nodes client node with
  | none => rfl
  | some n => exact nodeReclaimRequest_clear n

end Requests

section Ledger

/-- A reclaim request, known by its place among the requests written to its Node. -/
structure Written where
  client : Client
  node : String
  write : Nat
  deriving DecidableEq

/-- Somebody writes a request to the Node, a new one or another than before. -/
def writesRequest (w w' : World) (client : Client) (node : String) : Bool :=
  (requestAt w' client node).isSome && requestAt w' client node != requestAt w client node

def writes (client : Client) (node : String) : MachineTrace → Nat
  | [] => 0
  | .moved w w' :: t => writes client node t + (writesRequest w w' client node).toNat
  | _ :: t => writes client node t

def reading : MachineTrace → Option Written
  | [] => none
  | .started _ :: _ => none
  | .called w q c :: t =>
      ((requestRead ⟨q, (w.exec q c).1⟩).map fun r => ⟨r.1, r.2, writes r.1 r.2 t⟩).or (reading t)
  | _ :: t => reading t

/-- The reclaims counted so far, each with its time and the request it answers, the latest first. -/
def handled : MachineTrace → List (Instant × Written)
  | [] => []
  | .called _ (.recordReclaim now) _ :: t =>
      (reading t).elim (handled t) fun request => (now, request) :: handled t
  | _ :: t => handled t

/-- The time at which a reconcile counted its reclaim. -/
def countedAt (h : Log) : Option Instant :=
  h.findSome? fun
    | ⟨.recordReclaim now, _⟩ => some now
    | _ => none

def withinWindow (now t : Instant) : Bool :=
  decide (now - rapidReReclaimWindowSecs * nanosPerSecond ≤ t) && decide (t ≤ now)

/-- The distinct requests handled in the window before `now`. -/
def handledBefore (now : Instant) (t : MachineTrace) : List Written :=
  (((handled t).filter fun e => withinWindow now e.1).map Prod.snd).dedup

theorem handled_called {w : World} {q : Request} {c : Answer} {t : MachineTrace}
    (hq : q.counts = false) : handled (.called w q c :: t) = handled t := by
  cases q <;> first | rfl | cases hq

end Ledger

/-- The steps a counted reclaim depends on until its request is off the Node. -/
def Request.bears : Request → Bool
  | .resolveChild | .delete _ _ | .patchDisableSchedule => true
  | q => q.clears

/--
The clock does not go back, the process is not restarted and nobody else writes its memory. From the count
of a reclaim until its request is off the Node, no step the reclaim depends on fails, and it stays with the
cluster in which the request was read.
-/
def countGuard : MachineGuard where
  move v w := v.world.clock ≤ w.clock ∧ w.recentReclaims = v.world.recentReclaims
  start _ := True
  call v q c := ∀ cur client node, v.current = some cur → course cur.done = .counted client node →
    q.bears = true → c = .ok ∧ (q = .resolveChild → v.world.child = .ok client)
  crash _ := False

theorem goesOn_exec {w : World} {q : Request} {c : Answer} {client : Client}
    (hbears : q.bears = true → c = .ok ∧ (q = .resolveChild → w.child = .ok client)) :
    goesOn client ⟨q, (w.exec q c).1⟩ = true := by
  cases q with
  | resolveChild =>
    obtain ⟨rfl, hchild⟩ := hbears rfl
    simp [goesOn, World.exec, hchild rfl, Except.toOption]
  | delete version key =>
    obtain ⟨rfl, _⟩ := hbears rfl
    simp only [goesOn, World.exec, World.delete]
    cases w.objects key <;> rfl
  | patchDisableSchedule =>
    obtain ⟨rfl, _⟩ := hbears rfl
    rfl
  | patchNode client' name p =>
    cases hclears : (Request.patchNode client' name p).clears with
    | false => simp [goesOn, hclears]
    | true =>
      obtain ⟨rfl, _⟩ := hbears hclears
      simp only [goesOn, World.exec, World.patchNode]
      cases w.nodes client' name <;> simp [writeAnswer, notFound, deleteDone, KubeError.isNotFound]
  | _ => rfl

section Attribution

variable {v : MachineView} {w : World} {cur : Current Request Response World} {q : Request} {c : Answer}

/-- The request cannot be read again: another was written since, it is off the Node, or the reconcile in
flight is about to take it off. -/
def Spent (v : MachineView) (request : Written) : Prop :=
  request.write < writes request.client request.node v.trace ∨
    requestAt v.world request.client request.node = none ∨
    ∃ cur, v.current = some cur ∧ course cur.done = .counted request.client request.node

/-- Every counted reclaim answers a request of its own. -/
structure Attributed (v : MachineView) : Prop where
  read : ∀ cur, v.current = some cur →
    (reading v.trace).map (fun request => (request.client, request.node)) = lastRequest cur.done
  unbroken : ∀ cur, v.current = some cur → course cur.done ≠ .broken
  written : ∀ e ∈ handled v.trace, e.2.write ≤ writes e.2.client e.2.node v.trace
  spent : ∀ e ∈ handled v.trace, Spent v e.2
  known : ∀ request, reading v.trace = some request →
    request.write ≤ writes request.client request.node v.trace
  fresh : ∀ cur request, v.current = some cur → course cur.done = .idle →
    reading v.trace = some request → ∀ e ∈ handled v.trace, e.2.client = request.client →
      e.2.node = request.node → e.2.write < request.write
  distinct : ((handled v.trace).map Prod.snd).Nodup

theorem writes_moved_le (client : Client) (node : String) (t : MachineTrace) (w w' : World) :
    writes client node t ≤ writes client node (.moved w w' :: t) := Nat.le_add_right _ _

theorem Spent.moved {request : Written} (hspent : Spent v request)
    (hwritten : request.write ≤ writes request.client request.node v.trace) :
    Spent (v.moved w) request := by
  rcases hspent with hlater | hnone | hflight
  · exact Or.inl (Nat.lt_of_lt_of_le hlater (writes_moved_le _ _ _ _ _))
  · cases hrequest : requestAt w request.client request.node with
    | none => exact Or.inr (Or.inl hrequest)
    | some found =>
      refine Or.inl (Nat.lt_of_le_of_lt hwritten ?_)
      have hwrites : writesRequest v.world w request.client request.node = true := by
        simp [writesRequest, hrequest, hnone]
      simp [View.moved, writes, hwrites]
  · exact Or.inr (Or.inr hflight)

theorem Attributed.moved (hv : Attributed v) : Attributed (v.moved w) where
  read := hv.read
  unbroken := hv.unbroken
  written e he := Nat.le_trans (hv.written e he) (writes_moved_le _ _ _ _ _)
  spent e he := (hv.spent e he).moved (hv.written e he)
  known request hrequest := Nat.le_trans (hv.known request hrequest) (writes_moved_le _ _ _ _ _)
  fresh := hv.fresh
  distinct := hv.distinct

theorem Attributed.started (hv : Attributed v) (hcur : v.current = none) : Attributed v.started where
  read cur hcur := by
    cases hcur
    rfl
  unbroken cur hcur := by
    cases hcur
    simp [course]
  written := hv.written
  spent e he := by
    rcases hv.spent e he with hlater | hnone | ⟨cur, h, _⟩
    · exact Or.inl hlater
    · exact Or.inr (Or.inl hnone)
    · cases hcur.symm.trans h
  known request hrequest := by cases hrequest
  fresh cur request _ _ hrequest := by cases hrequest
  distinct := hv.distinct

theorem requestRead_eq_some {y : Sigma Response} {client : Client} {node : String}
    (h : requestRead y = some (client, node)) :
    ∃ found, y = ⟨.getNode client node, .ok found⟩ ∧ (nodeReclaimRequest found).isSome = true := by
  unfold requestRead at h
  split at h
  · rename_i found
    split at h
    · rename_i hfound
      cases h
      exact ⟨found, rfl, hfound⟩
    · cases h
  · cases h

theorem requestAt_of_read {client : Client} {node : String}
    (h : requestRead ⟨q, (w.exec q c).1⟩ = some (client, node)) : requestAt w client node ≠ none := by
  obtain ⟨found, hy, hfound⟩ := requestRead_eq_some h
  obtain ⟨_, hnode, _⟩ := nodes_of_read hy
  unfold requestAt
  rw [hnode]
  exact Option.isSome_iff_ne_none.mp hfound

theorem lastRequest_cons (y : Sigma Response) (h : Log) :
    lastRequest (y :: h) = (requestRead y).or (lastRequest h) := by
  unfold lastRequest
  rw [List.findSome?_cons]
  cases requestRead y <;> rfl

theorem reading_called (w : World) (q : Request) (c : Answer) (t : MachineTrace) :
    reading (.called w q c :: t) =
      ((requestRead ⟨q, (w.exec q c).1⟩).map fun r => ⟨r.1, r.2, writes r.1 r.2 t⟩).or (reading t) := rfl

theorem Counting.of_counts {h : Log} (hq : Counting h q) (hcounts : q.counts = true) :
    ∃ now h', q = .recordReclaim now ∧ h = ⟨.now, now⟩ :: h' ∧ course h = .idle ∧
      (lastRequest h).isSome = true := by
  cases hq with
  | aside hneutral => cases (counts_of_neutral hneutral).symm.trans hcounts
  | @count h now hidle hread =>
    refine ⟨now, h, rfl, rfl, ?_, hread⟩
    rw [course, hidle, Course.next_idle rfl]
  | warn | clear => cases hcounts

theorem Counting.requestAt_exec {h : Log} {client : Client} {node : String} (hq : Counting h q)
    (hnone : requestAt w client node = none) : requestAt (w.exec q c).2 client node = none := by
  cases hq with
  | aside hneutral => exact requestAt_exec_of_neutral hneutral hnone
  | count | warn => exact Machine.requestAt_exec (fun _ _ _ _ hp => by cases hp) hnone
  | clear => exact requestAt_exec_clear _ _ hnone

theorem clears_of_neutral {q : Request} (hq : q.neutral = true) : q.clears = false := by
  cases q with
  | patchNode client name p =>
    simp only [Request.clears, List.any_eq_false]
    intro change hchange
    have hkey := List.all_eq_true.mp hq change hchange
    simp_all
  | _ => rfl

variable {client : Client} {node : String}

theorem Counting.counted {h : Log} (hq : Counting h q) (hcounted : course h = .counted client node)
    (hG : q.bears = true → c = .ok ∧ (q = .resolveChild → w.child = .ok client)) :
    course (⟨q, (w.exec q c).1⟩ :: h) = .counted client node ∨
      requestAt (w.exec q c).2 client node = none := by
  cases hclears : q.clears with
  | false =>
    refine Or.inl ?_
    rw [course, hcounted]
    simp [Course.next, goesOn_exec hG, hclears]
  | true =>
    refine Or.inr ?_
    cases hq with
    | aside hneutral => cases (clears_of_neutral hneutral).symm.trans hclears
    | count | warn => cases hclears
    | clear hpending =>
      rw [hcounted] at hpending
      obtain hpending | hpending := hpending
      · cases hpending
        obtain ⟨rfl, _⟩ := hG (by simpa [Request.bears] using hclears)
        exact requestAt_cleared
      · cases hpending

theorem Course.next_ne_broken {s : Course} {read : Option (Client × String)} {y : Sigma Response}
    (hs : s ≠ .broken) (hgoesOn : ∀ client node, s = .counted client node → goesOn client y = true)
    (hread : y.1.counts = true → read.isSome = true) : s.next read y ≠ .broken := by
  cases s with
  | counted client node =>
    simp only [Course.next, hgoesOn client node rfl]
    cases y.1.clears <;> simp
  | broken => exact absurd rfl hs
  | idle | cleared =>
    simp only [Course.next]
    split
    · rename_i hcounts
      obtain ⟨r, hr⟩ := Option.isSome_iff_exists.mp (hread hcounts)
      simp [hr]
    · simp

theorem Spent.called {request : Written} (hspent : Spent v request) (hcur : v.current = some cur)
    (hq : Counting cur.done q) (hG : countGuard.call v q c) :
    Spent (v.called machineSystem cur q c) request := by
  rcases hspent with hlater | hnone | ⟨cur', hcur', hcounted⟩
  · exact Or.inl hlater
  · exact Or.inr (Or.inl (hq.requestAt_exec hnone))
  · cases hcur.symm.trans hcur'
    rcases hq.counted hcounted (hG cur _ _ hcur hcounted) with hcounted | hnone
    · exact Or.inr (Or.inr ⟨_, rfl, hcounted⟩)
    · exact Or.inr (Or.inl hnone)

theorem Attributed.read_counts (hv : Attributed v) (hcur : v.current = some cur)
    (hread : (lastRequest cur.done).isSome = true) :
    ∃ request, reading v.trace = some request ∧
      lastRequest cur.done = some (request.client, request.node) := by
  have hsame := hv.read cur hcur
  cases hreading : reading v.trace with
  | none =>
    rw [hreading] at hsame
    rw [← hsame] at hread
    cases hread
  | some request =>
    rw [hreading] at hsame
    exact ⟨request, rfl, hsame.symm⟩

theorem handled_counts {now : Instant} {t : MachineTrace} {request : Written}
    (hreading : reading t = some request) :
    handled (.called w (.recordReclaim now) c :: t) = (now, request) :: handled t := by
  simp [handled, hreading]

section Called

variable (hv : Attributed v) (hcur : v.current = some cur) (hq : Counting cur.done q)
  (hG : countGuard.call v q c)

include hv hcur hq hG

theorem Attributed.handled_called :
    (q.counts = false ∧ handled (.called v.world q c :: v.trace) = handled v.trace) ∨
      ∃ now request, q = .recordReclaim now ∧ course cur.done = .idle ∧
        reading v.trace = some request ∧
        course (⟨q, (v.world.exec q c).1⟩ :: cur.done) = .counted request.client request.node ∧
        handled (.called v.world q c :: v.trace) = (now, request) :: handled v.trace := by
  cases hcounts : q.counts with
  | false => exact Or.inl ⟨rfl, Machine.handled_called hcounts⟩
  | true =>
    obtain ⟨now, h, rfl, _, hidle, hread⟩ := hq.of_counts hcounts
    obtain ⟨request, hreading, hlast⟩ := hv.read_counts hcur hread
    refine Or.inr ⟨now, request, rfl, hidle, hreading, ?_, handled_counts hreading⟩
    rw [course, hidle, hlast]
    rfl

theorem Attributed.called : Attributed (v.called machineSystem cur q c) where
  read cur' hcur' := by
    cases hcur'
    change (reading (.called v.world q c :: v.trace)).map _ =
      lastRequest (⟨q, (v.world.exec q c).1⟩ :: cur.done)
    rw [reading_called, lastRequest_cons, ← hv.read cur hcur]
    cases requestRead ⟨q, (v.world.exec q c).1⟩ <;> rfl
  unbroken cur' hcur' := by
    cases hcur'
    refine Course.next_ne_broken (hv.unbroken cur hcur) (fun client node hcounted => ?_) fun hcounts => ?_
    · exact goesOn_exec (hG cur client node hcur hcounted)
    · obtain ⟨_, _, _, _, _, hread⟩ := hq.of_counts hcounts
      exact hread
  written e he := by
    rcases hv.handled_called hcur hq hG with ⟨_, hsame⟩ | ⟨now, request, _, _, hreading, _, hsame⟩
    · exact hv.written e (hsame ▸ he)
    · rcases List.mem_cons.mp (hsame ▸ he) with rfl | he
      · exact hv.known request hreading
      · exact hv.written e he
  spent e he := by
    rcases hv.handled_called hcur hq hG with ⟨_, hsame⟩ | ⟨now, request, _, _, _, hcounted, hsame⟩
    · exact (hv.spent e (hsame ▸ he)).called hcur hq hG
    · rcases List.mem_cons.mp (hsame ▸ he) with rfl | he
      · exact Or.inr (Or.inr ⟨_, rfl, hcounted⟩)
      · exact (hv.spent e he).called hcur hq hG
  known request hrequest := by
    rcases Option.or_eq_some_iff.mp hrequest with hnew | ⟨_, hold⟩
    · obtain ⟨r, _, rfl⟩ := Option.map_eq_some_iff.mp hnew
      exact Nat.le_refl _
    · exact hv.known request hold
  fresh cur' request hcur' hidle hrequest e he hclient hnode := by
    cases hcur'
    have hold : course cur.done = .idle ∧ q.counts = false := course_idle_of_cons hidle
    have he : e ∈ handled v.trace := Machine.handled_called hold.2 ▸ he
    rcases Option.or_eq_some_iff.mp hrequest with hnew | ⟨_, hreading⟩
    · obtain ⟨r, hread, rfl⟩ := Option.map_eq_some_iff.mp hnew
      rcases hv.spent e he with hlater | hnone | ⟨cur', hcur', hcounted⟩
      · simpa [hclient, hnode] using hlater
      · exact absurd (by simpa [hclient, hnode] using hnone) (requestAt_of_read hread)
      · cases hcur.symm.trans hcur'
        cases hold.1.symm.trans hcounted
    · exact hv.fresh cur request hcur hold.1 hreading e he hclient hnode
  distinct := by
    rcases hv.handled_called hcur hq hG with ⟨_, hsame⟩ | ⟨now, request, _, hidle, hreading, _, hsame⟩
    · exact hsame ▸ hv.distinct
    · change ((handled (.called v.world q c :: v.trace)).map Prod.snd).Nodup
      rw [hsame, List.map_cons, List.nodup_cons]
      refine ⟨fun hmem => ?_, hv.distinct⟩
      obtain ⟨e, he, heq⟩ := List.mem_map.mp hmem
      have hlt := hv.fresh cur request hcur hidle hreading e he (by rw [heq]) (by rw [heq])
      rw [heq] at hlt
      exact Nat.lt_irrefl _ hlt

end Called

theorem Attributed.finished {a : Except ReconcilerError Action} (hv : Attributed v)
    (hcur : v.current = some cur) (hconcluded : Concluded cur.done) :
    Attributed (v.finished cur a) where
  read cur h := by cases h
  unbroken cur h := by cases h
  written := hv.written
  spent e he := by
    rcases hv.spent e he with hlater | hnone | ⟨cur', h, hcounted⟩
    · exact Or.inl hlater
    · exact Or.inr (Or.inl hnone)
    · cases hcur.symm.trans h
      exact absurd hcounted (hconcluded _ _)
  known := hv.known
  fresh cur request h := by cases h
  distinct := hv.distinct

end Attribution

section Memory

theorem withinWindow_iff {now t : Instant} : withinWindow now t = true ↔
    now - rapidReReclaimWindowSecs * nanosPerSecond ≤ t ∧ t ≤ now := by
  simp [withinWindow]

theorem withinWindow_of_recorded {events : List Instant} {now t : Instant}
    (hsorted : events.Pairwise (· ≤ ·)) (hpast : ∀ t ∈ events, t ≤ now)
    (ht : t ∈ (recordEmergencyReclaimEvent events now).1) : withinWindow now t = true := by
  rw [recordEmergencyReclaimEvent_fst, Window.push_eq hsorted] at ht
  rw [withinWindow_iff]
  rcases List.mem_append.mp (List.mem_of_mem_drop ht) with hold | hnew
  · obtain ⟨hmem, hrecent⟩ := List.mem_filter.mp hold
    exact ⟨of_decide_eq_true hrecent, hpast t hmem⟩
  · obtain rfl := List.mem_singleton.mp hnew
    exact ⟨windowStart_le t, Int.le_refl t⟩

theorem exec_recentReclaims {w : World} {q : Request} {c : Answer} (hq : q.counts = false) :
    (w.exec q c).2.recentReclaims = w.recentReclaims := by
  cases q with
  | recordReclaim now => cases hq
  | patchStatus _ | patchFinalizers _ | patchDisableSchedule =>
    simp only [World.exec, writeAnswer_ok_snd]
    split <;> rfl
  | create version k body =>
    simp only [World.exec, World.create]
    cases w.objects k <;> rcases c with _ | ⟨e, _ | _⟩ <;> rfl
  | delete version k =>
    simp only [World.exec, World.delete]
    cases w.objects k <;> rcases c with _ | ⟨e, _ | _⟩ <;> rfl
  | patchNode client name p =>
    simp only [World.exec, World.patchNode]
    cases w.nodes client name <;> rcases c with _ | ⟨e, _ | _⟩ <;> rfl
  | publish _ | deletePod _ _ _ | applyConfigMap _ _ _ | deleteConfigMap _ _ =>
    rcases c with _ | ⟨e, _ | _⟩ <;> rfl
  | _ => rfl

def times (t : MachineTrace) : List Instant := (handled t).map Prod.fst

/-- What the process remembers are the times of the latest reclaims counted. -/
structure Remembered (v : MachineView) : Prop where
  past : ∀ t ∈ times v.trace, t ≤ v.world.clock
  ordered : (times v.trace).reverse.Pairwise (· ≤ ·)
  recent : v.world.recentReclaims <:+ (times v.trace).reverse
  clock : ∀ cur now h, v.current = some cur → cur.done = ⟨.now, now⟩ :: h →
    now ≤ v.world.clock ∧ ∀ t ∈ times v.trace, t ≤ now
  counted : ∀ cur now breach, v.current = some cur → ⟨.recordReclaim now, breach⟩ ∈ cur.done →
    (breach = true → rapidReReclaimThreshold ≤ v.world.recentReclaims.length) ∧
      ∀ t ∈ v.world.recentReclaims, withinWindow now t = true

variable {v : MachineView} {w : World} {cur : Current Request Response World} {q : Request} {c : Answer}

theorem Remembered.moved (hv : Remembered v) (hclock : v.world.clock ≤ w.clock)
    (hrecent : w.recentReclaims = v.world.recentReclaims) : Remembered (v.moved w) where
  past t ht := Int.le_trans (hv.past t ht) hclock
  ordered := hv.ordered
  recent := by
    change w.recentReclaims <:+ (times v.trace).reverse
    rw [hrecent]
    exact hv.recent
  clock cur now h hcur hdone := by
    obtain ⟨hnow, hpast⟩ := hv.clock cur now h hcur hdone
    exact ⟨Int.le_trans hnow hclock, hpast⟩
  counted cur now breach hcur hmem := by
    change (_ → _ ≤ w.recentReclaims.length) ∧ ∀ t ∈ w.recentReclaims, _
    rw [hrecent]
    exact hv.counted cur now breach hcur hmem

theorem Remembered.called (hv : Remembered v) (hcur : v.current = some cur) (hcounts : q.counts = false) :
    Remembered (v.called machineSystem cur q c) := by
  have htimes : times (.called v.world q c :: v.trace) = times v.trace := by
    unfold times
    rw [handled_called hcounts]
  have hrecent : (v.world.exec q c).2.recentReclaims = v.world.recentReclaims :=
    exec_recentReclaims hcounts
  have hclock : (v.world.exec q c).2.clock = v.world.clock := exec_clock _ _ _
  refine ⟨?_, ?_, ?_, ?_, ?_⟩
  · change ∀ t ∈ times (.called v.world q c :: v.trace), t ≤ (v.world.exec q c).2.clock
    rw [htimes, hclock]
    exact hv.past
  · change (times (.called v.world q c :: v.trace)).reverse.Pairwise (· ≤ ·)
    rw [htimes]
    exact hv.ordered
  · change (v.world.exec q c).2.recentReclaims <:+ (times (.called v.world q c :: v.trace)).reverse
    rw [htimes, hrecent]
    exact hv.recent
  · rintro _ now h ⟨⟩ hdone
    change now ≤ (v.world.exec q c).2.clock ∧ ∀ t ∈ times (.called v.world q c :: v.trace), t ≤ now
    rw [htimes, hclock]
    obtain ⟨hhead, _⟩ := List.cons.inj hdone
    obtain ⟨rfl, hanswer⟩ := Sigma.mk.inj hhead
    obtain rfl : v.world.clock = now := eq_of_heq hanswer
    exact ⟨Int.le_refl _, hv.past⟩
  · rintro _ now breach ⟨⟩ hmem
    change (_ → _ ≤ (v.world.exec q c).2.recentReclaims.length) ∧
      ∀ t ∈ (v.world.exec q c).2.recentReclaims, _
    rw [hrecent]
    rcases List.mem_cons.mp hmem with heq | hmem
    · obtain ⟨rfl, _⟩ := Sigma.mk.inj heq
      cases hcounts
    · exact hv.counted cur now breach hcur hmem

theorem Remembered.counts {now : Instant} {h : Log} {request : Written} (hv : Remembered v)
    (hcur : v.current = some cur) (hdone : cur.done = ⟨.now, now⟩ :: h) (hidle : course cur.done = .idle)
    (hreading : reading v.trace = some request) :
    Remembered (v.called machineSystem cur (.recordReclaim now) c) := by
  obtain ⟨hnow, hpast⟩ := hv.clock cur now h hcur hdone
  have htimes : times (.called v.world (.recordReclaim now) c :: v.trace) = now :: times v.trace := by
    unfold times
    rw [handled_counts hreading, List.map_cons]
  have hsorted : v.world.recentReclaims.Pairwise (· ≤ ·) := hv.ordered.sublist hv.recent.sublist
  have hbefore : ∀ t ∈ v.world.recentReclaims, t ≤ now := fun t ht =>
    hpast t (List.mem_reverse.mp (hv.recent.subset ht))
  refine ⟨?_, ?_, ?_, ?_, ?_⟩
  · change ∀ t ∈ times (.called v.world (.recordReclaim now) c :: v.trace), t ≤ v.world.clock
    rw [htimes]
    exact List.forall_mem_cons.mpr ⟨hnow, hv.past⟩
  · change (times (.called v.world (.recordReclaim now) c :: v.trace)).reverse.Pairwise (· ≤ ·)
    rw [htimes, List.reverse_cons, List.pairwise_append]
    refine ⟨hv.ordered, List.pairwise_singleton _ _, fun t ht t' ht' => ?_⟩
    obtain rfl := List.mem_singleton.mp ht'
    exact hpast t (List.mem_reverse.mp ht)
  · change (recordEmergencyReclaimEvent v.world.recentReclaims now).1 <:+
      (times (.called v.world (.recordReclaim now) c :: v.trace)).reverse
    rw [htimes, List.reverse_cons, recordEmergencyReclaimEvent_fst]
    obtain ⟨old, hold⟩ := hv.recent
    refine (Window.push_suffix _ _).trans ⟨old, ?_⟩
    rw [← List.append_assoc, hold]
  · rintro _ now' h' ⟨⟩ hdone'
    obtain ⟨hhead, _⟩ := List.cons.inj hdone'
    cases (Sigma.mk.inj hhead).1
  · rintro _ now' breach ⟨⟩ hmem
    rcases List.mem_cons.mp hmem with heq | hmem
    · obtain ⟨hop, hanswer⟩ := Sigma.mk.inj heq
      cases hop
      obtain rfl := eq_of_heq hanswer
      exact ⟨fun hbreach => of_decide_eq_true hbreach, fun t => withinWindow_of_recorded hsorted hbefore⟩
    · exact absurd hidle (course_ne_idle hmem rfl)

end Memory

section Warning

/-- What the run is known by. -/
structure Tallied (v : MachineView) : Prop where
  attributed : Attributed v
  remembered : Remembered v

theorem tallied_preserved : countContract.Preserves machineSystem countGuard Tallied where
  move v w hv hG := ⟨hv.attributed.moved, hv.remembered.moved hG.1 hG.2⟩
  start v hv hcur _ := by
    refine ⟨countContract_binds v.world, hv.attributed.started hcur, ?_⟩
    refine ⟨hv.remembered.past, hv.remembered.ordered, hv.remembered.recent, ?_, ?_⟩
    · rintro _ now h ⟨⟩ hdone
      cases hdone
    · rintro _ now breach ⟨⟩ hmem
      cases hmem
  call v cur q c hv hcur hq hG := by
    refine ⟨trivial, hv.attributed.called hcur hq hG, ?_⟩
    rcases hv.attributed.handled_called hcur hq hG with
      ⟨hcounts, _⟩ | ⟨now, request, rfl, hidle, hreading, _, _⟩
    · exact hv.remembered.called hcur hcounts
    · obtain ⟨now', h, heq, hdone, _, _⟩ := hq.of_counts rfl
      cases heq
      exact hv.remembered.counts hcur hdone hidle hreading
  finish v cur a hv hcur hconcluded := by
    refine ⟨hv.attributed.finished hcur hconcluded, hv.remembered.past, hv.remembered.ordered,
      hv.remembered.recent, ?_, ?_⟩
    · rintro _ now h ⟨⟩
    · rintro _ now breach ⟨⟩
  crash v _ hG := hG.elim

theorem tallied_idle {w : World} (hempty : w.recentReclaims = []) : Tallied ⟨w, [], none⟩ where
  attributed := {
    read := fun cur h => by cases h
    unbroken := fun cur h => by cases h
    written := fun e he => by cases he
    spent := fun e he => by cases he
    known := fun request h => by cases h
    fresh := fun cur request h => by cases h
    distinct := List.nodup_nil }
  remembered := {
    past := fun t ht => by cases ht
    ordered := List.Pairwise.nil
    recent := List.suffix_nil.mpr hempty
    clock := fun cur now h hcur => by cases hcur
    counted := fun cur now breach hcur => by cases hcur }

theorem Tallied.le_handledBefore {v : MachineView} (hv : Tallied v) {now : Instant}
    (hwindow : ∀ t ∈ v.world.recentReclaims, withinWindow now t = true) :
    v.world.recentReclaims.length ≤ (handledBefore now v.trace).length := by
  have hlatest : ((handled v.trace).take v.world.recentReclaims.length).map Prod.fst =
      v.world.recentReclaims.reverse := by
    have hprefix : v.world.recentReclaims.reverse <+: times v.trace := by
      simpa using List.reverse_prefix.mpr hv.remembered.recent
    rw [List.map_take]
    simpa [times] using (List.prefix_iff_eq_take.mp hprefix).symm
  have hlength : ((handled v.trace).take v.world.recentReclaims.length).length =
      v.world.recentReclaims.length := by
    simpa using congrArg List.length hlatest
  have hinside : ((handled v.trace).take v.world.recentReclaims.length).filter
      (fun e => withinWindow now e.1) = (handled v.trace).take v.world.recentReclaims.length := by
    rw [List.filter_eq_self]
    intro e he
    refine hwindow e.1 (List.mem_reverse.mp ?_)
    rw [← hlatest]
    exact List.mem_map_of_mem he
  have hdistinct : (((handled v.trace).filter fun e => withinWindow now e.1).map Prod.snd).Nodup :=
    hv.attributed.distinct.sublist (List.filter_sublist.map _)
  calc v.world.recentReclaims.length
      = (((handled v.trace).take v.world.recentReclaims.length).filter
          fun e => withinWindow now e.1).length := by rw [hinside, hlength]
    _ ≤ ((handled v.trace).filter fun e => withinWindow now e.1).length :=
        ((List.take_sublist _ _).filter _).length_le
    _ = (handledBefore now v.trace).length := by
        rw [handledBefore, hdistinct.dedup, List.length_map]

/--
Whenever a warning of rapid reclaims is about to be published, as many distinct requests as the threshold
says were handled in the window before the time of the last one.
-/
theorem rapid_reclaim_warning_sound (w : World) (es : List (Event World Answer))
    (hempty : w.recentReclaims = []) (hes : countGuard.Allows machineSystem (.idle w) es)
    (cur : Current Request Response World) (name : String)
    (k : Response (.publish (buildRapidReReclaimEvent name)) →
      Prog Request Response (Except ReconcilerError Action))
    (hflight : (machineSystem.run (.idle w) es).inflight =
      some (cur, .call (.publish (buildRapidReReclaimEvent name)) k)) :
    ∃ now, countedAt cur.done = some now ∧
      rapidReReclaimThreshold ≤ (handledBefore now (machineSystem.run (.idle w) es).trace).length := by
  obtain ⟨hv, hgoverns⟩ := tallied_preserved.run (c := .idle w) (tallied_idle hempty)
    Contract.governs_idle hes
  have hcur : (machineSystem.run (.idle w) es).view.current = some cur := by
    simp [Config.view, hflight]
  have hpermits : Counting cur.done (.publish (buildRapidReReclaimEvent name)) :=
    (hgoverns cur _ hflight).1
  obtain ⟨now, h, hdone⟩ : ∃ now h, cur.done = ⟨.recordReclaim now, true⟩ :: h := by
    generalize hlog : cur.done = log at hpermits
    cases hpermits with
    | aside hneutral => simp [Request.neutral, buildRapidReReclaimEvent] at hneutral
    | @warn h now => exact ⟨now, h, rfl⟩
  obtain ⟨hbreach, hwindow⟩ := hv.remembered.counted cur now true hcur (by rw [hdone]; simp)
  refine ⟨now, by rw [hdone]; rfl, ?_⟩
  exact Nat.le_trans (hbreach rfl) (hv.le_handledBefore hwindow)

end Warning

section Sample

/-- The time counted by a reconcile that is about to warn of rapid reclaims. -/
def pendingWarning (c : Config Request Response World Answer (Except ReconcilerError Action)) :
    Option (Option Instant) :=
  c.inflight.bind fun (cur, p) =>
    match p with
    | .call (.publish event) _ =>
        if event = buildRapidReReclaimEvent cur.snapshot.machine.name then some (countedAt cur.done)
        else none
    | _ => none

theorem exists_of_pendingWarning
    {c : Config Request Response World Answer (Except ReconcilerError Action)} {now : Option Instant}
    (h : pendingWarning c = some now) :
    ∃ cur name k, c.inflight = some (cur, .call (.publish (buildRapidReReclaimEvent name)) k) ∧
      countedAt cur.done = now := by
  obtain ⟨⟨cur, p⟩, hin, hp⟩ := Option.bind_eq_some_iff.mp h
  simp only at hp
  split at hp
  · split at hp
    · rename_i hevent
      subst hevent
      cases hp
      exact ⟨cur, _, _, hin, rfl⟩
    · cases hp
  · cases hp

def Request.isResolve : Request → Bool
  | .resolveChild => true
  | _ => false

def countTests : Tests countGuard where
  start _ := true
  call v q c := v.current.all fun cur =>
    match course cur.done with
    | .counted client _ =>
        !q.bears || (c == .ok && (!q.isResolve || v.world.child.toOption == some client))
    | _ => true
  start_sound _ _ := trivial
  call_sound v q c h := by
    intro cur client node hcur hcounted hbears
    rw [hcur] at h
    simp only [Option.all_some, hcounted, hbears, Bool.not_true, Bool.false_or, Bool.and_eq_true,
      beq_iff_eq, Bool.or_eq_true] at h
    refine ⟨h.1, ?_⟩
    rintro rfl
    have hchild : v.world.child.toOption = some client := h.2.resolve_left (by simp [Request.isResolve])
    cases hw : v.world.child with
    | error e => simp [hw, Except.toOption] at hchild
    | ok client' => simpa [hw, Except.toOption] using hchild
  crash _ := false
  crash_sound _ h := by cases h

theorem admits_requestSample (c : Config Request Response World Answer (Except ReconcilerError Action)) :
    countGuard.Admits c (.move (requestSample c.world)) := ⟨Int.le_refl _, rfl⟩

def sampleRound (c : Config Request Response World Answer (Except ReconcilerError Action)) (n : Nat) :
    List (Event World Answer) := .move (requestSample c.world) :: reconcileFor n

def sampleOnce : Config Request Response World Answer (Except ReconcilerError Action) :=
  machineSystem.run (.idle sampleJoined.world) (sampleRound (.idle sampleJoined.world) 25)

def sampleTwice : Config Request Response World Answer (Except ReconcilerError Action) :=
  machineSystem.run sampleOnce (sampleRound sampleOnce 25)

def sampleThrice : List (Event World Answer) :=
  sampleRound (.idle sampleJoined.world) 25 ++ (sampleRound sampleOnce 25 ++ sampleRound sampleTwice 9)

theorem three_requests_warned_of :
    ∃ now, pendingWarning (machineSystem.run (.idle sampleJoined.world) sampleThrice) = some (some now) ∧
      rapidReReclaimThreshold ≤ (handledBefore now
        (machineSystem.run (.idle sampleJoined.world) sampleThrice).trace).length := by
  have hrun : sampleJoined.world.recentReclaims = [] ∧
      pendingWarning (machineSystem.run (.idle sampleJoined.world) sampleThrice) = some (some 0) ∧
      countTests.passAll machineSystem (machineSystem.step (.idle sampleJoined.world)
        (.move (requestSample sampleJoined.world))) (reconcileFor 25) = true ∧
      countTests.passAll machineSystem (machineSystem.step sampleOnce
        (.move (requestSample sampleOnce.world))) (reconcileFor 25) = true ∧
      countTests.passAll machineSystem (machineSystem.step sampleTwice
        (.move (requestSample sampleTwice.world))) (reconcileFor 9) = true := by
    decide +kernel
  obtain ⟨hempty, hpending, hfirst, hsecond, hthird⟩ := hrun
  have hallows : countGuard.Allows machineSystem (.idle sampleJoined.world) sampleThrice := by
    refine Guard.allows_append.mpr ⟨⟨admits_requestSample _, Tests.allows hfirst⟩, ?_⟩
    exact Guard.allows_append.mpr ⟨⟨admits_requestSample _, Tests.allows hsecond⟩,
      admits_requestSample _, Tests.allows hthird⟩
  obtain ⟨cur, name, k, hflight, hcounted⟩ := exists_of_pendingWarning hpending
  obtain ⟨now, hnow, hle⟩ := rapid_reclaim_warning_sound _ _ hempty hallows cur name k hflight
  exact ⟨now, by rw [hpending, ← hcounted, hnow], hle⟩

/-- The reclaim is counted, and the next step fails. -/
def sampleFailing : List (Event World Answer) :=
  reconcileFor 9 ++ [.next (.fail (.other "kubeconfig not available") false)]

/-- One request, handled three times because a step after the count fails, is warned of. -/
theorem one_request_warned_of :
    let c := machineSystem.run (.idle sampleJoined.world)
      (.move (requestSample sampleJoined.world) :: (sampleFailing ++ sampleFailing ++ reconcileFor 9))
    pendingWarning c = some (some 0) ∧ (handled c.trace).length = 3 ∧
      handledBefore 0 c.trace = [⟨.management, "node-1", 1⟩] ∧
      ¬rapidReReclaimThreshold ≤ (handledBefore 0 c.trace).length := by
  decide +kernel

end Sample

end FiveSpot.Machine
