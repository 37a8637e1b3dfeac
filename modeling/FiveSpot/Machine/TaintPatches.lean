import FiveSpot.Machine.Frame
import FiveSpot.Machine.Tainting

/-!
# The taints a reconcile sends

Which lists of taints reach a Node: when such a list has no duplicates, and what the validator of
`spec.nodeTaints`, which no reconcile calls, has to say about it.
-/

namespace FiveSpot.Machine

set_option autoImplicit false

open Effects

section Validator

def taintNameMaxLen : Nat := 63

def taintPrefixMaxLen : Nat := 253

def reservedTaintPrefixOwn : String := "5spot.finos.org/"

def reservedK8sTaintPrefixes : List String :=
  ["node.kubernetes.io/", "node-role.kubernetes.io/", "kubernetes.io/"]

def isQualifiedName (s : String) : Bool :=
  match s.toList with
  | [] => false
  | first :: rest =>
      if !first.isAlphanum then false
      else
        match rest.getLast? with
        | none => true
        | some last =>
            if !last.isAlphanum then false
            else rest.dropLast.all fun c => c.isAlphanum || c == '-' || c == '.'

/-- Upper case is let through, unlike in the check of the same name for kata references. -/
def isDnsSubdomain (s : String) : Bool :=
  if s.isEmpty || taintPrefixMaxLen < s.utf8ByteSize then false
  else (Text.split '.' s).all fun label =>
    !label.isEmpty && decide (label.utf8ByteSize ≤ taintNameMaxLen) &&
      label.toList.head?.any Char.isAlphanum && label.toList.getLast?.any Char.isAlphanum &&
      label.toList.all fun c => c.isAlphanum || c == '-'

def validateTaintKey (key : String) : Except String Unit := do
  if key.isEmpty then throw "taint key must be non-empty"
  if Text.startsWith reservedTaintPrefixOwn key then
    throw ("taint key must not use reserved prefix " ++ reservedTaintPrefixOwn ++ ": " ++ key)
  if let some pre := reservedK8sTaintPrefixes.find? fun pre => Text.startsWith pre key then
    throw ("taint key prefix " ++ pre ++ " is reserved by Kubernetes; use spec.machineTemplate for " ++
      "control-plane role signalling, got: " ++ key)
  let (prefixOpt, name) :=
    match Text.splitOnce '/' key with
    | some (p, n) => (some p, n)
    | none => (none, key)
  if let some pre := prefixOpt then
    if pre.isEmpty || taintPrefixMaxLen < pre.utf8ByteSize then
      throw ("taint key prefix must be 1..=" ++ toString taintPrefixMaxLen ++ " chars: " ++ key)
    if !isDnsSubdomain pre then throw ("taint key prefix is not a DNS subdomain: " ++ key)
  if name.isEmpty || taintNameMaxLen < name.utf8ByteSize then
    throw ("taint key name portion must be 1..=" ++ toString taintNameMaxLen ++ " chars: " ++ key)
  if !isQualifiedName name then throw ("taint key does not match qualified-name pattern: " ++ key)

def validateTaintValue (value : String) : Except String Unit :=
  if value.isEmpty then .ok ()
  else if taintNameMaxLen < value.utf8ByteSize then
    .error ("taint value must be 0..=" ++ toString taintNameMaxLen ++ " chars: " ++ value)
  else if !isQualifiedName value then
    .error ("taint value does not match qualified-name pattern: " ++ value)
  else .ok ()

/-- The rest of the list, with what was seen before it. -/
def validateNodeTaintsFrom (seen : List (String × TaintEffect)) : List NodeTaint → Except String Unit
  | [] => .ok ()
  | t :: taints => do
      validateTaintKey t.key
      if let some v := t.value then validateTaintValue v
      if seen.contains (t.key, t.effect) then
        throw ("duplicate (key, effect) in spec.nodeTaints: (" ++ t.key ++ ", " ++ t.effect.text ++ ")")
      validateNodeTaintsFrom ((t.key, t.effect) :: seen) taints

def validateNodeTaints (taints : List NodeTaint) : Except String Unit := validateNodeTaintsFrom [] taints

/-- The key of the taint and its value, if any, pass their own checks. -/
def NodeTaint.Valid (t : NodeTaint) : Prop :=
  validateTaintKey t.key = .ok () ∧ ∀ v, t.value = some v → validateTaintValue v = .ok ()

theorem validateNodeTaintsFrom_cons_eq_ok_iff {seen : List (String × TaintEffect)} {t : NodeTaint}
    {taints : List NodeTaint} : validateNodeTaintsFrom seen (t :: taints) = .ok () ↔
      t.Valid ∧ (t.key, t.effect) ∉ seen ∧
        validateNodeTaintsFrom ((t.key, t.effect) :: seen) taints = .ok () := by
  obtain ⟨key, value, effect⟩ := t
  simp only [validateNodeTaintsFrom, NodeTaint.Valid]
  cases hkey : validateTaintKey key with
  | error e => simp [Bind.bind, Except.bind]
  | ok _ =>
    by_cases hseen : (key, effect) ∈ seen
    · cases value with
      | none => simp [Bind.bind, Except.bind, hseen, throw, throwThe, MonadExceptOf.throw]
      | some v =>
        cases hvalue : validateTaintValue v <;>
          simp [Bind.bind, Except.bind, hseen, hvalue, throw, throwThe, MonadExceptOf.throw]
    · cases value with
      | none => simp [Bind.bind, Except.bind, hseen]
      | some v => cases hvalue : validateTaintValue v <;> simp [Bind.bind, Except.bind, hseen, hvalue]

theorem validateNodeTaintsFrom_eq_ok_iff {seen : List (String × TaintEffect)} {taints : List NodeTaint} :
    validateNodeTaintsFrom seen taints = .ok () ↔
      (∀ t ∈ taints, t.Valid ∧ (t.key, t.effect) ∉ seen) ∧ DistinctDesired taints := by
  induction taints generalizing seen with
  | nil => simp [validateNodeTaintsFrom, DistinctDesired]
  | cons t taints ih =>
    have hidentity : ∀ a : NodeTaint, (a.key, a.effect) = (t.key, t.effect) ↔ a.identity = t.identity := by
      intro a
      rw [← sameIdentity_iff]
      simp
    rw [validateNodeTaintsFrom_cons_eq_ok_iff, ih, List.forall_mem_cons]
    simp only [DistinctDesired, List.map_cons, List.nodup_cons, List.mem_map, List.mem_cons, not_or,
      hidentity]
    constructor
    · rintro ⟨hvalid, hseen, hrest, hnodup⟩
      refine ⟨⟨⟨hvalid, hseen⟩, fun a ha => ⟨(hrest a ha).1, (hrest a ha).2.2⟩⟩, ?_, hnodup⟩
      rintro ⟨a, ha, heq⟩
      exact (hrest a ha).2.1 heq
    · rintro ⟨⟨⟨hvalid, hseen⟩, hrest⟩, hnew, hnodup⟩
      exact ⟨hvalid, hseen,
        fun a ha => ⟨(hrest a ha).1, fun heq => hnew ⟨a, ha, heq⟩, (hrest a ha).2⟩, hnodup⟩

theorem validateNodeTaints_eq_ok_iff {taints : List NodeTaint} :
    validateNodeTaints taints = .ok () ↔ (∀ t ∈ taints, t.Valid) ∧ DistinctDesired taints := by
  simp [validateNodeTaints, validateNodeTaintsFrom_eq_ok_iff]

end Validator

section Patches

/-- The patch of taints to be sent next: by which reconcile, to which Node and with which taints. -/
def pendingTaints (c : Config Request Response World Answer (Except ReconcilerError Action)) :
    Option (Current Request Response World × Client × String × List Taint) :=
  c.inflight.bind fun (cur, p) =>
    match p with
    | .call (.patchNode client name p) _ => p.taints.map fun ts => (cur, client, name, ts)
    | _ => none

theorem exists_of_pendingTaints
    {c : Config Request Response World Answer (Except ReconcilerError Action)}
    {cur : Current Request Response World} {client : Client} {name : String} {ts : List Taint}
    (h : pendingTaints c = some (cur, client, name, ts)) :
    ∃ p k, c.inflight = some (cur, .call (.patchNode client name p) k) ∧ p.taints = some ts := by
  obtain ⟨⟨cur', p⟩, hin, hp⟩ := Option.bind_eq_some_iff.mp h
  rcases p with a | ⟨q, k⟩
  · cases hp
  · cases q with
    | patchNode client' name' p =>
      obtain ⟨ts', hts, heq⟩ := Option.map_eq_some_iff.mp hp
      cases heq
      exact ⟨p, k, hin, hts⟩
    | _ => cases hp

theorem Tainted.taints_eq {r : ScheduledMachine} {h : Log} {client : Client} {name : String}
    {p : NodePatch} {ts : List Taint} (hq : Tainted r h (.patchNode client name p))
    (hts : p.taints = some ts) :
    ∃ first second h', h =
        ⟨.getNode client name, .ok second⟩ :: ⟨.getNode client name, .ok first⟩ :: h' ∧
      ts = targetTaints second.taints (taintPlan r first) := by
  cases hq with
  | plain hplain => simp [Request.plain, hts] at hplain
  | apply _ _ => exact ⟨_, _, _, rfl, (Option.some.inj hts).symm⟩

theorem readings_of_governed
    {c : Config Request Response World Answer (Except ReconcilerError Action)}
    (hgoverns : taintContract.Governs c)
    {cur : Current Request Response World} {client : Client} {name : String} {ts : List Taint}
    (hpending : pendingTaints c = some (cur, client, name, ts)) :
    ∃ first second h, cur.done =
        ⟨.getNode client name, .ok second⟩ :: ⟨.getNode client name, .ok first⟩ :: h ∧
      ts = targetTaints second.taints (taintPlan cur.snapshot.machine first) := by
  obtain ⟨p, k, hflight, hts⟩ := exists_of_pendingTaints hpending
  exact (hgoverns cur _ hflight).1.taints_eq hts

/--
A patch is made from the last two readings of its Node. It has no two taints of one identity exactly
when what the first reading lacked, the second lacked too.
-/
theorem patched_taints_distinct_iff (w : World) (es : List (Event World Answer))
    (cur : Current Request Response World) (client : Client) (name : String) (ts : List Taint)
    (hpending : pendingTaints (machineSystem.run (.idle w) es) = some (cur, client, name, ts))
    (hspec : DistinctDesired cur.snapshot.machine.spec.nodeTaints) :
    ∃ first second h, cur.done =
        ⟨.getNode client name, .ok second⟩ :: ⟨.getNode client name, .ok first⟩ :: h ∧
      (Distinct second.taints →
        (Distinct ts ↔ ∀ want ∈ cur.snapshot.machine.spec.nodeTaints,
          findCurrent first.taints want = none → findCurrent second.taints want = none)) := by
  have hgoverns := Contract.governs_run taintContract_binds (fun _ _ _ => trivial) w es
  obtain ⟨first, second, h, hdone, rfl⟩ := readings_of_governed hgoverns hpending
  exact ⟨first, second, h, hdone, fun hsecond => distinct_target_iff hspec hsecond⟩

end Patches

section Sample

def taintSample (taints : List NodeTaint) (w : World) : World :=
  { w with machine := { w.machine with spec := { w.machine.spec with nodeTaints := taints } } }

def editTaintSample (t : Taint) (w : World) : World :=
  { w with nodes := fun client name =>
      (w.nodes client name).map fun node => { node with taints := node.taints ++ [t] } }

def teamTaint : NodeTaint := ⟨"team", some "a", .noSchedule⟩

def zoneTaint : Taint := ⟨"zone", some "b", "NoSchedule"⟩

def sampleTainting : Config Request Response World Answer (Except ReconcilerError Action) :=
  machineSystem.run (.idle (editTaintSample zoneTaint (taintSample [teamTaint] sampleJoined.world)))
    (reconcileFor 14)

def taintsRead : Sigma Response → Option (List Taint)
  | ⟨.getNode _ _, .ok node⟩ => some node.taints
  | _ => none

theorem sampleTainting_pending : ∃ cur,
    pendingTaints sampleTainting =
        some (cur, .management, "node-1", [zoneTaint, teamTaint.toTaint]) ∧
      cur.snapshot.machine.spec.nodeTaints = [teamTaint] ∧
      (cur.done.take 2).map taintsRead = [some [zoneTaint], some [zoneTaint]] := by
  have hfacts : (pendingTaints sampleTainting).map (fun x =>
      ((x.1.snapshot.machine.spec.nodeTaints, (x.1.done.take 2).map taintsRead), x.2)) =
        some (([teamTaint], [some [zoneTaint], some [zoneTaint]]), .management, "node-1",
          [zoneTaint, teamTaint.toTaint]) := by
    decide +kernel
  obtain ⟨⟨cur, x⟩, hpending, heq⟩ := Option.map_eq_some_iff.mp hfacts
  obtain ⟨hcur, rfl⟩ := Prod.mk.inj heq
  obtain ⟨hspec, hread⟩ := Prod.mk.inj hcur
  exact ⟨cur, hpending, hspec, hread⟩

theorem added_taint_distinct : ∃ cur, ∃ first second : Node, ∃ h,
    pendingTaints sampleTainting =
        some (cur, .management, "node-1", [zoneTaint, teamTaint.toTaint]) ∧
      cur.done = ⟨.getNode .management "node-1", .ok second⟩ ::
        ⟨.getNode .management "node-1", .ok first⟩ :: h ∧
      (first.taints = [zoneTaint] ∧ second.taints = [zoneTaint] ∧ Distinct second.taints) ∧
      Distinct [zoneTaint, teamTaint.toTaint] := by
  obtain ⟨cur, hpending, hspec, hread⟩ := sampleTainting_pending
  obtain ⟨first, second, h, hdone, hiff⟩ :=
    patched_taints_distinct_iff _ (reconcileFor 14) cur _ _ _ hpending (by rw [hspec]; decide +kernel)
  rw [hdone] at hread
  obtain ⟨hsecond, hfirst⟩ : second.taints = [zoneTaint] ∧ first.taints = [zoneTaint] := by
    simpa [taintsRead] using hread
  have hdistinct : Distinct second.taints := by
    rw [hsecond]
    decide
  refine ⟨cur, first, second, h, hpending, hdone, ⟨hfirst, hsecond, hdistinct⟩,
    (hiff hdistinct).mpr ?_⟩
  rw [hspec, hfirst, hsecond]
  exact fun _ _ hnone => hnone

/-- Somebody adds the taint with another value between the two readings: the patch has both. -/
theorem patch_has_duplicate :
    let c := machineSystem.run (.idle (taintSample [teamTaint] sampleJoined.world)) (reconcileFor 13)
    let c' := machineSystem.run c
      [.move (editTaintSample ⟨"team", some "b", "NoSchedule"⟩ c.world), .next .ok]
    DistinctDesired [teamTaint] ∧
      (c.world.nodes .management "node-1").map Node.taints = some [] ∧
      (c'.world.nodes .management "node-1").map Node.taints =
        some [⟨"team", some "b", "NoSchedule"⟩] ∧
      (pendingTaints c').map Prod.snd = some (.management, "node-1",
        [⟨"team", some "b", "NoSchedule"⟩, ⟨"team", some "a", "NoSchedule"⟩]) ∧
      ¬ Distinct [⟨"team", some "b", "NoSchedule"⟩, ⟨"team", some "a", "NoSchedule"⟩] := by
  decide +kernel

end Sample

section Valid

def validTaintsGuard : MachineGuard where
  move _ _ := True
  start v := validateNodeTaints v.world.machine.spec.nodeTaints = .ok ()
  call _ _ _ := True
  crash _ := True

def ValidInFlight (v : MachineView) : Prop :=
  ∀ cur, v.current = some cur → validateNodeTaints cur.snapshot.machine.spec.nodeTaints = .ok ()

theorem validInFlight_preserved : taintContract.Preserves machineSystem validTaintsGuard ValidInFlight where
  move _ _ hv _ := hv
  start v _ _ hG := by
    refine ⟨taintContract_binds _, ?_⟩
    rintro cur ⟨⟩
    exact hG
  call v cur q c hv hcur _ _ := by
    refine ⟨trivial, ?_⟩
    rintro cur' ⟨⟩
    exact hv cur hcur
  finish _ _ _ _ _ _ := fun cur h => by cases h
  crash _ _ _ := fun cur h => by cases h

/--
If the validator accepts the taints that each reconcile starts from, then what a patch adds to the Node
or changes on it is one of them, with a key and a value that pass their checks.
-/
theorem patched_taints_valid (w : World) (es : List (Event World Answer))
    (hes : validTaintsGuard.Allows machineSystem (.idle w) es)
    (cur : Current Request Response World) (client : Client) (name : String) (ts : List Taint)
    (hpending : pendingTaints (machineSystem.run (.idle w) es) = some (cur, client, name, ts)) :
    validateNodeTaints cur.snapshot.machine.spec.nodeTaints = .ok () ∧
      ∃ node h, cur.done = ⟨.getNode client name, .ok node⟩ :: h ∧
        ∀ t ∈ ts, t ∈ node.taints ∨
          ∃ want ∈ cur.snapshot.machine.spec.nodeTaints, t = want.toTaint ∧ want.Valid := by
  have hinit : ValidInFlight ⟨w, [], none⟩ := fun cur h => by cases h
  obtain ⟨hflight, hgoverns⟩ :=
    validInFlight_preserved.run (c := .idle w) hinit Contract.governs_idle hes
  obtain ⟨first, second, h, hdone, rfl⟩ := readings_of_governed hgoverns hpending
  have hcur : (machineSystem.run (.idle w) es).view.current = some cur := by
    obtain ⟨p, k, hin, _⟩ := exists_of_pendingTaints hpending
    simp [Config.view, hin]
  have hvalid := hflight cur hcur
  refine ⟨hvalid, second, _, hdone, fun t ht => ?_⟩
  rcases mem_target ht with hold | ⟨want, hwant, heq⟩
  · exact .inl hold
  · exact .inr ⟨want, hwant, heq, (validateNodeTaints_eq_ok_iff.mp hvalid).1 want hwant⟩

def validTaintsTests : Tests validTaintsGuard where
  start v := (validateNodeTaints v.world.machine.spec.nodeTaints).isOk
  call _ _ _ := true
  crash _ := true
  start_sound v h := by
    change validateNodeTaints v.world.machine.spec.nodeTaints = .ok ()
    cases hvalid : validateNodeTaints v.world.machine.spec.nodeTaints with
    | ok _ => rfl
    | error e => simp [hvalid, Except.isOk, Except.toBool] at h
  call_sound _ _ _ _ := trivial
  crash_sound _ _ := trivial

theorem team_taint_is_valid : ∃ cur,
    pendingTaints sampleTainting =
        some (cur, .management, "node-1", [zoneTaint, teamTaint.toTaint]) ∧
      validateNodeTaints cur.snapshot.machine.spec.nodeTaints = .ok () := by
  obtain ⟨cur, hpending, _⟩ := sampleTainting_pending
  refine ⟨cur, hpending, (patched_taints_valid _ (reconcileFor 14) ?_ cur _ _ _ hpending).1⟩
  exact Tests.allows (T := validTaintsTests) (by decide +kernel)

/-- A taint in the name of Kubernetes itself is rejected, but nobody asks: it reaches the Node. -/
theorem reserved_taint_is_sent :
    let w := taintSample [⟨"kubernetes.io/x", none, .noSchedule⟩] sampleJoined.world
    let c := machineSystem.run (.idle w) (reconcileFor 14)
    validateNodeTaints w.machine.spec.nodeTaints = .error ("taint key prefix kubernetes.io/ is " ++
        "reserved by Kubernetes; use spec.machineTemplate for control-plane role signalling, got: " ++
        "kubernetes.io/x") ∧
      (pendingTaints c).map Prod.snd =
        some (.management, "node-1", [⟨"kubernetes.io/x", none, "NoSchedule"⟩]) ∧
      ((machineSystem.run c [.next .ok]).world.nodes .management "node-1").map Node.taints =
        some [⟨"kubernetes.io/x", none, "NoSchedule"⟩] := by
  decide +kernel

end Valid

end FiveSpot.Machine
