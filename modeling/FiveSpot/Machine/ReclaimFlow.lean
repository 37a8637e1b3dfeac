import FiveSpot.Machine.Ordinary

/-!
# The course of an emergency reclaim

A reconcile that finds a reclaim request counts it before the steps that take the machine away, and takes
the request off the Node after them. Each of these steps may fail, and then the request stays. How far a
reconcile has got is read off the calls it has made.
-/

namespace FiveSpot.Machine

set_option autoImplicit false

open Effects Effects.Prog

section Course

def requestRead : Sigma Response → Option (Client × String)
  | ⟨.getNode client node, .ok found⟩ =>
      if (nodeReclaimRequest found).isSome then some (client, node) else none
  | _ => none

def lastRequest (h : Log) : Option (Client × String) := h.findSome? requestRead

inductive Course where
  | idle
  /-- The request on the Node has been counted and is still to be taken off. -/
  | counted (client : Client) (node : String)
  | cleared
  /-- A step after the count has failed, or has gone to another cluster. -/
  | broken
  deriving DecidableEq

def Request.counts : Request → Bool
  | .recordReclaim _ => true
  | _ => false

/-- An answer with which a reclaim that was counted on a Node of `client` goes on. -/
def goesOn (client : Client) : Sigma Response → Bool
  | ⟨.resolveChild, x⟩ => x.toOption == some client
  | ⟨.delete _ _, x⟩ => deleteDone x
  | ⟨.patchDisableSchedule, x⟩ => x.isOk
  | ⟨.patchNode client' node p, x⟩ => !(Request.patchNode client' node p).clears || deleteDone x
  | _ => true

def Course.next (s : Course) (read : Option (Client × String)) (y : Sigma Response) : Course :=
  match s with
  | .counted client node =>
      if !goesOn client y then .broken else if y.1.clears then .cleared else .counted client node
  | s => if y.1.counts then read.elim .broken fun r => .counted r.1 r.2 else s

def course : Log → Course
  | [] => .idle
  | y :: h => (course h).next (lastRequest h) y

/-- A call whose answer has no bearing on the course. -/
def Request.passes : Request → Bool
  | .recordReclaim _ | .resolveChild | .delete _ _ | .patchDisableSchedule => false
  | q => !q.clears

theorem Course.next_of_passes {q : Request} (hq : q.passes = true) (s : Course)
    (read : Option (Client × String)) (x : Response q) : s.next read ⟨q, x⟩ = s := by
  have hcounts : q.counts = false := by cases q <;> first | rfl | cases hq
  have hclears : q.clears = false := by cases q <;> first | rfl | simpa [Request.passes] using hq
  cases s with
  | counted client node =>
    have hgoesOn : goesOn client ⟨q, x⟩ = true := by
      cases q <;> first | rfl | cases hq | simp [goesOn, hclears]
    simp [Course.next, hgoesOn, hclears]
  | _ => simp [Course.next, hcounts]

theorem Course.next_ne_idle {s : Course} {read : Option (Client × String)} {y : Sigma Response}
    (hs : s ≠ .idle ∨ y.1.counts = true) : s.next read y ≠ .idle := by
  cases s with
  | counted client node =>
    simp only [Course.next]
    split
    · simp
    · split <;> simp
  | idle =>
    have hy : y.1.counts = true := hs.resolve_left fun h => h rfl
    cases read <;> simp [Course.next, hy]
  | cleared | broken =>
    simp only [Course.next]
    split
    · cases read <;> simp
    · simp

theorem course_idle_of_cons {h : Log} {y : Sigma Response} (hidle : course (y :: h) = .idle) :
    course h = .idle ∧ y.1.counts = false := by
  by_contra hnot
  refine Course.next_ne_idle ?_ hidle
  by_cases hcourse : course h = .idle
  · exact Or.inr (by simpa [hcourse] using hnot)
  · exact Or.inl hcourse

theorem course_ne_idle {h : Log} {y : Sigma Response} (hy : y ∈ h) (hcounts : y.1.counts = true) :
    course h ≠ .idle := by
  induction h with
  | nil => cases hy
  | cons y' h ih =>
    rcases List.mem_cons.mp hy with rfl | hy
    · exact Course.next_ne_idle (Or.inr hcounts)
    · exact Course.next_ne_idle (Or.inl (ih hy))

theorem Course.next_idle {q : Request} (hq : q.counts = false) (read : Option (Client × String))
    (x : Response q) : Course.idle.next read ⟨q, x⟩ = .idle := by
  simp [Course.next, hq]

theorem Course.next_broken {q : Request} (hq : q.counts = false) (read : Option (Client × String))
    (x : Response q) : Course.broken.next read ⟨q, x⟩ = .broken := by
  simp [Course.next, hq]

end Course

section Contract

def Request.neutral : Request → Bool
  | .recordReclaim _ => false
  | .publish event => event.action != "RapidReReclaim"
  | .patchNode _ _ p => p.annotations.all fun (key, _) => key != reclaimRequestedAnnotation
  | _ => true

/-- What a reconcile may call, as far as the count of reclaims and the requests on Nodes go. -/
inductive Counting : Log → Request → Prop where
  | aside {h : Log} {q : Request} : q.neutral = true → Counting h q
  | count {h : Log} {now : Instant} : course h = .idle → (lastRequest h).isSome = true →
      Counting (⟨.now, now⟩ :: h) (.recordReclaim now)
  | warn {h : Log} {now : Instant} {event : KubeEvent} :
      Counting (⟨.recordReclaim now, true⟩ :: h) (.publish event)
  | clear {h : Log} {client : Client} {node : String} :
      course h = .counted client node ∨ course h = .broken →
      Counting h (.patchNode client node buildClearReclaimPatch)

/-- Nothing that was counted is left undone, unless by a failure. -/
def Concluded (h : Log) : Prop := ∀ client node, course h ≠ .counted client node

theorem Request.neutral_of_ordinary {q : Request} (hq : q.ordinary = true) : q.neutral = true := by
  cases q with
  | patchNode client name p => exact ((Bool.and_eq_true _ _).mp hq).2
  | publish _ | recordReclaim _ => exact hq
  | _ => rfl

theorem counts_of_neutral {q : Request} (hq : q.neutral = true) : q.counts = false := by
  cases q <;> first | rfl | cases hq

/-- A call that can be made at any point of the course and has no bearing on it. -/
def Request.standsBy : Request → Bool
  | .getNode _ _ => false
  | q => q.neutral && q.passes

variable {α : Type} {h : Log} {client : Client} {node : String}

theorem requestRead_of_standsBy {q : Request} (hq : q.standsBy = true) (x : Response q) :
    requestRead ⟨q, x⟩ = none := by
  cases q <;> first | rfl | cases hq

theorem neutral_of_standsBy {q : Request} (hq : q.standsBy = true) :
    q.neutral = true ∧ q.passes = true := by
  cases q <;> first | exact (Bool.and_eq_true _ _).mp hq | cases hq

theorem course_of_standsBy {h' : Log} (hgrown : History.Grown (fun q => q.standsBy = true) h h') :
    course h' = course h ∧ lastRequest h' = lastRequest h := by
  obtain ⟨l, rfl, hl⟩ := hgrown
  induction l with
  | nil => exact ⟨rfl, rfl⟩
  | cons y l ih =>
    obtain ⟨hy, hl⟩ := List.forall_mem_cons.mp hl
    obtain ⟨hcourse, hread⟩ := ih hl
    refine ⟨?_, ?_⟩
    · exact (Course.next_of_passes (neutral_of_standsBy hy).2 _ _ y.2).trans hcourse
    · rw [← hread, List.cons_append, lastRequest, List.findSome?_cons, requestRead_of_standsBy hy]
      rfl

theorem counting_standsBy {x : Reconcile α} (hx : Calls Request.standsBy x) :
    Keeps Counting x h (fun _ h' => course h' = course h ∧ lastRequest h' = lastRequest h)
      fun _ h' => course h' = course h :=
  ⟨meets_outcome_mono
    (uses_run_meets hx.uses fun _ _ _ hq => .aside (neutral_of_standsBy hq).1)
    (fun _ _ => course_of_standsBy) fun _ _ hgrown => (course_of_standsBy hgrown).1⟩

theorem counting_publish {event : KubeEvent} (hevent : (Request.publish event).standsBy = true) :
    Keeps Counting (publishBestEffort event) h
      (fun _ h' => course h' = course h ∧ lastRequest h' = lastRequest h) fun _ _ => False := by
  obtain ⟨hneutral, hpasses⟩ := neutral_of_standsBy hevent
  exact keeps_ask_bind (.aside hneutral) fun _ => keeps_pure ⟨Course.next_of_passes hpasses _ _ _, rfl⟩

theorem standsBy_recordPhase (defaultReason defaultMessage : String) (fromPhase : Option Phase)
    (phase : Phase) (reason message : Option String) (inSchedule : Bool) :
    Calls Request.standsBy
      (recordPhase defaultReason defaultMessage fromPhase phase reason message inSchedule) := by
  have hneutral : (Request.publish (buildPhaseTransitionEvent fromPhase phase
      (reason.getD defaultReason) (message.getD defaultMessage))).neutral = true :=
    bne_iff_ne.mpr (action_buildPhaseTransitionEvent _ _ _ _)
  have hpublish : (Request.publish (buildPhaseTransitionEvent fromPhase phase
      (reason.getD defaultReason) (message.getD defaultMessage))).standsBy = true :=
    (Bool.and_eq_true _ _).mpr ⟨hneutral, rfl⟩
  exact (calls_publish hpublish).bind fun _ => (calls_call rfl).bind fun _ =>
    (calls_call rfl).bind calls_orKubeError

theorem standsBy_drain (client : Client) (node : String) (timeout : Nat) :
    Calls Request.standsBy (drainNodeWithTimeout client node timeout) :=
  calls_drain rfl rfl (fun _ _ => rfl) rfl timeout

theorem counting_noteReclaim (r : ScheduledMachine) (hidle : course h = .idle)
    (hread : lastRequest h = some (client, node)) :
    Keeps Counting (noteReclaim r) h (fun _ h' => course h' = .counted client node)
      fun _ _ => False := by
  refine keeps_ask_bind (.aside rfl) fun now => ?_
  refine keeps_ask_bind (.count hidle (by rw [hread]; rfl)) fun breach => ?_
  have hcourse : course (⟨.recordReclaim now, breach⟩ :: ⟨.now, now⟩ :: h) = .counted client node := by
    have hread' : lastRequest (⟨.now, now⟩ :: h) = some (client, node) := hread
    have hidle' : course (⟨.now, now⟩ :: h) = .idle := by
      rw [course, hidle]
      rfl
    rw [course, hidle', hread']
    rfl
  cases breach with
  | false => exact keeps_pure hcourse
  | true =>
    refine keeps_ask_bind .warn fun _ => keeps_pure ?_
    rw [course, hcourse]
    rfl

/-- The request of the Node is still to be taken off, unless something has failed. -/
def Pending (client : Client) (node : String) (h : Log) : Prop :=
  course h = .counted client node ∨ course h = .broken

theorem concluded_of_idle (hidle : course h = .idle) : Concluded h := by
  intro client node hcounted
  cases hidle.symm.trans hcounted

theorem concluded_of_broken (hbroken : course h = .broken) : Concluded h := by
  intro client node hcounted
  cases hbroken.symm.trans hcounted

theorem Pending.cons {q : Request} {x : Response q} (hpending : Pending client node h)
    (hcounts : q.counts = false) (hclears : q.clears = false) : Pending client node (⟨q, x⟩ :: h) := by
  rcases hpending with hcounted | hbroken
  · unfold Pending
    rw [course, hcounted]
    simp only [Course.next, hclears]
    split
    · exact Or.inr rfl
    · exact Or.inl rfl
  · refine Or.inr ?_
    rw [course, hbroken, Course.next_broken hcounts]

theorem Pending.fails {q : Request} {x : Response q} (hpending : Pending client node h)
    (hcounts : q.counts = false) (hfails : ∀ client, goesOn client ⟨q, x⟩ = false) :
    course (⟨q, x⟩ :: h) = .broken := by
  rcases hpending with hcounted | hbroken
  · rw [course, hcounted]
    simp [Course.next, hfails]
  · rw [course, hbroken, Course.next_broken hcounts]

theorem Pending.concluded {h' : Log} {x : Except KubeError Unit} (hpending : Pending client node h)
    (hsame : course h' = course (⟨.patchNode client node buildClearReclaimPatch, x⟩ :: h)) :
    Concluded h' := by
  intro client' node' hcounted
  rw [hsame, course] at hcounted
  rcases hpending with hpending | hpending
  · rw [hpending] at hcounted
    simp only [Course.next] at hcounted
    split at hcounted
    · cases hcounted
    · cases hcounted
  · rw [hpending, Course.next_broken rfl] at hcounted
    cases hcounted

theorem counting_deleteKey (context version : String) (key : ObjectKey)
    (hpending : Pending client node h) :
    Keeps Counting (deleteKey context version key) h (fun _ h' => Pending client node h')
      fun _ h' => Concluded h' := by
  refine keeps_ask_bind (.aside rfl) fun x => ?_
  cases x with
  | ok _ => exact keeps_pure (hpending.cons rfl rfl)
  | error e =>
    simp only
    split
    · exact keeps_pure (hpending.cons rfl rfl)
    · rename_i hnot
      have hfails : deleteDone (.error e) = false := by simpa [deleteDone] using hnot
      exact keeps_throw (concluded_of_broken (hpending.fails rfl fun _ => hfails))

theorem counting_deleteEmbedded (embedded : EmbeddedResource) (ns name : String)
    (hpending : Pending client node h) :
    Keeps Counting (deleteEmbedded embedded ns name) h (fun _ h' => Pending client node h')
      fun _ h' => Concluded h' := by
  unfold deleteEmbedded
  split
  · exact counting_deleteKey _ _ _ hpending
  · exact keeps_pure hpending

theorem counting_removeMachine (s : Settings) (r : ScheduledMachine) (ns : String)
    (hpending : Pending client node h) :
    Keeps Counting (removeMachineFromCluster s r ns) h (fun _ h' => Pending client node h')
      fun _ h' => Concluded h' :=
  (counting_deleteKey _ _ _ hpending).bind
    (fun _ _ hpending => (counting_deleteEmbedded _ _ _ hpending).bind
      (fun _ _ hpending => counting_deleteEmbedded _ _ _ hpending) fun _ _ he => he)
    fun _ _ he => he

theorem counting_finishEmergencyRemove (s : Settings) (r : ScheduledMachine) (ns : String)
    (hpending : Pending client node h) :
    Keeps Counting (finishEmergencyRemove s r ns client node) h (fun _ h' => Concluded h')
      fun _ h' => Concluded h' := by
  refine (counting_removeMachine s r ns hpending).bind (fun _ h₁ hpending => ?_) fun _ _ he => he
  refine keeps_ask_bind (.aside rfl) fun x => ?_
  cases x with
  | error e => exact keeps_throw (concluded_of_broken (hpending.fails rfl fun _ => rfl))
  | ok _ =>
    have hevent : (Request.publish buildEmergencyDisableScheduleEvent).standsBy = true := by decide
    refine (counting_publish hevent).bind (fun _ h₂ hsame => ?_) fun _ _ hfalse => hfalse.elim
    have hpending : Pending client node h₂ := by
      unfold Pending
      rw [hsame.1]
      exact hpending.cons rfl rfl
    refine keeps_ask_bind (.clear hpending) fun x => ?_
    exact (counting_standsBy (standsBy_recordPhase _ _ _ _ _ _ _)).bind
      (fun _ _ hsame => keeps_pure (hpending.concluded hsame.1)) fun _ _ => hpending.concluded

theorem counting_handleEmergencyRemove (s : Settings) (r : ScheduledMachine) (request : ReclaimRequest)
    (hidle : course h = .idle) (hread : lastRequest h = some (client, node)) :
    Keeps Counting (handleEmergencyRemove s r node request) h (fun _ h' => Concluded h')
      fun _ h' => Concluded h' := by
  have hevent : (Request.publish (buildEmergencyReclaimEvent request)).standsBy = true := by
    change ("EmergencyReclaim" != "RapidReReclaim" && true) = true
    decide
  unfold handleEmergencyRemove namespaceOf
  cases r.ns with
  | none => exact keeps_throw (concluded_of_idle hidle)
  | some ns =>
    refine (counting_publish hevent).bind (fun _ h₁ hsame₁ => ?_) fun _ _ hfalse => hfalse.elim
    refine (counting_standsBy (standsBy_recordPhase _ _ _ _ _ _ _)).bind (fun _ h₂ hsame₂ => ?_)
      fun _ _ hsame₂ => concluded_of_idle (hsame₂.trans (hsame₁.1.trans hidle))
    have hidle₂ : course h₂ = .idle := hsame₂.1.trans (hsame₁.1.trans hidle)
    have hread₂ : lastRequest h₂ = some (client, node) := hsame₂.2.trans (hsame₁.2.trans hread)
    refine (counting_noteReclaim r hidle₂ hread₂).bind (fun _ h₃ hcounted => ?_)
      fun _ _ hfalse => hfalse.elim
    refine keeps_ask_bind (.aside rfl) fun child => ?_
    cases child with
    | error e => exact keeps_throw (concluded_of_broken (Pending.fails (.inl hcounted) rfl fun _ => rfl))
    | ok client' =>
      have hpending : Pending client' node (⟨.resolveChild, .ok client'⟩ :: h₃) := by
        unfold Pending
        rw [course, hcounted]
        by_cases hsame : client' = client
        · simp [Course.next, goesOn, Except.toOption, Request.clears, hsame]
        · simp [Course.next, goesOn, Except.toOption, hsame]
      have hfinish : ∀ h₄, course h₄ = course (⟨.resolveChild, .ok client'⟩ :: h₃) →
          Keeps Counting (finishEmergencyRemove s r ns client' node) h₄ (fun _ h' => Concluded h')
            fun _ h' => Concluded h' := by
        intro h₄ hsame
        refine counting_finishEmergencyRemove s r ns ?_
        unfold Pending
        rwa [hsame]
      exact (counting_standsBy (standsBy_drain client' node _)).attempt
        (fun _ h₄ hsame => hfinish h₄ hsame.1) fun _ h₄ => hfinish h₄

theorem counting_checkEmergencyReclaim (s : Settings) (r : ScheduledMachine)
    (hidle : course h = .idle) :
    Keeps Counting (checkEmergencyReclaim s r) h
      (fun outcome h' => outcome.elim (course h' = .idle) fun _ => Concluded h')
      fun _ h' => Concluded h' := by
  unfold checkEmergencyReclaim
  split
  · exact keeps_pure hidle
  · split
    · exact keeps_pure hidle
    · refine keeps_ask_bind (.aside rfl) fun child => ?_
      have hidle₁ : course (⟨.resolveChild, child⟩ :: h) = .idle := by
        rw [course, hidle, Course.next_idle rfl]
      cases child with
      | error e => exact keeps_throw (concluded_of_idle hidle₁)
      | ok client =>
        refine keeps_ask_bind (.aside rfl) fun answer => ?_
        rename_i nodeRef _ _
        have hidle₂ : course (⟨.getNode client nodeRef.name, answer⟩ :: ⟨.resolveChild, .ok client⟩ :: h) =
            .idle := by
          rw [course, hidle₁, Course.next_idle rfl]
        cases answer with
        | error e =>
          simp only
          split
          · exact keeps_pure hidle₂
          · exact keeps_throw (concluded_of_idle hidle₂)
        | ok found =>
          cases hrequest : nodeReclaimRequest found with
          | none =>
            simp only [hrequest]
            exact keeps_pure hidle₂
          | some request =>
            have hread : lastRequest (⟨.getNode client nodeRef.name, .ok found⟩ ::
                ⟨.resolveChild, .ok client⟩ :: h) = some (client, nodeRef.name) := by
              simp [lastRequest, requestRead, hrequest]
            simp only [hrequest]
            exact (counting_handleEmergencyRemove s r request hidle₂ hread).bind
              (fun _ _ hconcluded => keeps_pure hconcluded) fun _ _ hconcluded => hconcluded

theorem enriching_neutral : Enriching Request.neutral where
  still _ hq := Request.neutral_of_ordinary ((Bool.and_eq_true _ _).mp hq).2
  taint _ _ _ _ := by
    change ( appliedTaintsAnnotation != reclaimRequestedAnnotation && true) = true
    decide
  record _ := rfl
  refs _ _ := rfl

theorem counting_neutral {x : Reconcile α} (hx : Calls Request.neutral x) (hidle : course h = .idle) :
    Keeps Counting x h (fun _ h' => course h' = .idle) fun _ h' => course h' = .idle := by
  have hgrown : ∀ h', History.Grown (fun q => q.neutral = true) h h' → course h' = .idle := by
    rintro _ ⟨l, rfl, hl⟩
    induction l with
    | nil => exact hidle
    | cons y l ih =>
      obtain ⟨hy, hl⟩ := List.forall_mem_cons.mp hl
      rw [List.cons_append, course, ih hl, Course.next_idle (counts_of_neutral hy) _ y.2]
  exact ⟨meets_outcome_mono (uses_run_meets hx.uses fun _ _ _ hq => .aside hq) (fun _ => hgrown)
    fun _ => hgrown⟩

theorem counting_reconcile (s : Settings) (r : ScheduledMachine) :
    Keeps Counting (reconcileScheduledMachine s r) [] (fun _ h' => Concluded h')
      fun _ h' => Concluded h' := by
  have husual : ∀ {q : Request}, Usual r q → q.neutral = true := by
    intro q hq
    cases hq with
    | ordinary hq => exact Request.neutral_of_ordinary hq
    | finalizers _ => rfl
  have hA : Admits r Counting fun h => course h = .idle :=
    { permits := fun _ hq => .aside (husual hq)
      keeps := fun x hidle hq => by
        rw [course, hidle, Course.next_idle (counts_of_neutral (husual hq))] }
  refine hA.reconcile (fun _ => concluded_of_idle) (fun ns h _ hidle => ?_) rfl
    fun h => counting_checkEmergencyReclaim s r
  exact (counting_neutral (enriching_neutral.calls_enrichActive r ns) hidle).weaken
    (fun _ _ => concluded_of_idle) fun _ _ => concluded_of_idle

end Contract

def countContract : Contract Request Response World (Except ReconcilerError Action) where
  answers _ _ _ := True
  permits _ h q := Counting h q
  returns _ _ h := Concluded h

theorem countContract_binds (w : World) : countContract.Binds w [] (machineSystem.program w) :=
  (counting_reconcile w.settings w.machine).meets.mono fun outcome _ houtcome => by
    cases outcome <;> exact houtcome

end FiveSpot.Machine
