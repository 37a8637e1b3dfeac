import FiveSpot.Machine.Footprint

/-!
# What the steps of a reconcile do

One lemma for each step says what it adds to the history of calls: phase updates, creation and
removal of the objects, the drain of a Node, and the resolution of the schedule.
-/

namespace FiveSpot.Machine

set_option autoImplicit false

open Effects Effects.Prog

variable {α β : Type} {r : ScheduledMachine} {h h' : Log}

abbrev Conforms (r : ScheduledMachine) (x : Reconcile α) (h : Log) : Prop :=
  Keeps (Permitted r) x h (fun _ _ => True) fun _ _ => True

section Rules

variable {x : Reconcile α} {f : α → Reconcile β} {Q : α → Log → Prop}
  {E E' : ReconcilerError → Log → Prop} {Q' : β → Log → Prop} {permits : Log → Request → Prop}

theorem keeps_quiet (hx : Quietly x) :
    Keeps (Permitted r) x h (fun _ h' => Quieter h h') fun _ h' => Quieter h h' := by
  refine ⟨meets_outcome_mono (uses_run_meets hx.uses fun _ _ _ hq => .calm hq) ?_ ?_⟩
  all_goals exact fun _ _ hg => hg.mono fun _ => Request.quiet_of_calm

theorem conforms_quiet (hx : Quietly x) : Conforms r x h :=
  (keeps_quiet hx).weaken (fun _ _ _ => trivial) fun _ _ _ => trivial

theorem keeps_check (v : Except ReconcilerError α) :
    Keeps permits (check v) h (fun a h' => v = .ok a ∧ h' = h) fun _ h' => h' = h := by
  cases v with
  | ok a => exact ⟨rfl, rfl⟩
  | error e => exact ⟨(rfl : h = h)⟩

theorem keeps_checked (v : Except ReconcilerError α) {Q : β → Log → Prop}
    (hf : ∀ a, v = .ok a → Keeps permits (f a) h Q E) (hE : ∀ e, E e h) :
    Keeps permits (check v >>= f) h Q E := by
  refine (keeps_check v).bind (fun a h' ha => ?_) fun e h' he => ?_
  · obtain ⟨ha, rfl⟩ := ha
    exact hf a ha
  · subst he
    exact hE e

theorem keeps_quietly {Q : β → Log → Prop} (hx : Quietly x)
    (hf : ∀ a h', Quieter h h' → Keeps (Permitted r) (f a) h' Q E) (hE : ∀ e h', Quieter h h' → E e h') :
    Keeps (Permitted r) (x >>= f) h Q E :=
  (keeps_quiet hx).bind hf hE

theorem keeps_namespaceOf :
    Keeps (Permitted r) (namespaceOf r) h (fun ns h' => r.ns = some ns ∧ h' = h) fun _ h' => h' = h := by
  unfold namespaceOf
  split
  · exact ⟨by assumption, rfl⟩
  · exact ⟨(rfl : h = h)⟩

end Rules

section Actions

theorem keeps_recordPhase {defaultReason defaultMessage : String} {fromPhase : Option Phase}
    {phase : Phase} {reason message : Option String} {inSchedule : Bool}
    (hm : Moves r h phase (reason.getD defaultReason)) :
    Keeps (Permitted r) (recordPhase defaultReason defaultMessage fromPhase phase reason message inSchedule) h
      (fun _ h' => History.Grown (fun q => q.isCreate = false) h h' ∧ Recorded h' phase)
      fun _ _ => True := by
  refine (keeps_quiet (quietly_publish _)).bind (fun _ h₁ hh₁ => ?_) fun _ _ _ => trivial
  have hnow : Permitted r h₁ .now := .calm rfl
  refine keeps_ask_bind hnow fun now => ?_
  have hh₂ : Quieter h (⟨.now, now⟩ :: h₁) := hh₁.cons rfl now
  have hmove : Permitted r (⟨.now, now⟩ :: h₁) (.patchStatus (phasePatch now phase
      (reason.getD defaultReason) (message.getD defaultMessage) inSchedule)) :=
    .move List.mem_cons_self (hm.pad (Quieter.padded hh₂))
  refine (keeps_ask hmove).bind (fun x h₃ hh₃ => ?_) fun _ _ hf => hf.elim
  subst hh₃
  have hgrown : History.Grown (fun q => q.isCreate = false) h (⟨.now, now⟩ :: h₁) :=
    hh₂.mono fun q hq => Request.isCreate_of_steady (Request.steady_of_quiet hq)
  cases x with
  | ok _ => exact ⟨hgrown.cons rfl _, _, List.mem_cons_self, rfl⟩
  | error e => exact ⟨trivial⟩

theorem conforms_moveTo {fromPhase phase : Phase} {reason message : String} {inSchedule : Bool}
    {secs : Nat} (hm : Moves r h phase reason) :
    Conforms r (moveTo fromPhase phase reason message inSchedule secs) h :=
  (keeps_recordPhase hm).then fun _ _ _ => ⟨trivial⟩

theorem keeps_deleteKey {context version : String} {k : ObjectKey} (hk : k ∈ ownKeys r)
    (hn : NoCreate h) (hr : Removing r h) :
    Keeps (Permitted r) (deleteKey context version k) h (fun _ h' => Steadier h h' ∧ Deleted h' k)
      fun _ h' => Steadier h h' := by
  refine (keeps_ask (.delete hk hn hr)).bind (fun x h' hh => ?_) fun _ _ hf => hf.elim
  subst hh
  have hgrown : Steadier h (⟨.delete version k, x⟩ :: h) := .cons (.refl h) (by rfl) x
  have hmem : ⟨.delete version k, x⟩ ∈ (⟨.delete version k, x⟩ :: h : Log) := List.mem_cons_self
  cases x with
  | ok _ => exact ⟨hgrown, version, .ok (), hmem, rfl⟩
  | error e =>
    simp only
    split
    · rename_i hnot
      exact ⟨hgrown, version, .error e, hmem, hnot⟩
    · exact ⟨hgrown⟩

theorem keeps_deleteEmbedded {embedded : EmbeddedResource} {ns : String}
    (hk : ∀ k, embeddedKey embedded ns r.name = some k → k ∈ ownKeys r) (hn : NoCreate h)
    (hr : Removing r h) :
    Keeps (Permitted r) (deleteEmbedded embedded ns r.name) h
      (fun _ h' => Steadier h h' ∧ ∀ k, embeddedKey embedded ns r.name = some k → Deleted h' k)
      fun _ h' => Steadier h h' := by
  cases ha : embedded.apiVersion with
  | none =>
    have hkey : embeddedKey embedded ns r.name = none := by simp [embeddedKey, ha]
    simp only [deleteEmbedded, ha, hkey]
    exact ⟨History.Grown.refl h, by simp⟩
  | some apiVersion =>
    cases hkind : embedded.kind with
    | none =>
      have hkey : embeddedKey embedded ns r.name = none := by simp [embeddedKey, ha, hkind]
      simp only [deleteEmbedded, ha, hkind, hkey]
      exact ⟨History.Grown.refl h, by simp⟩
    | some kind =>
      have hkey : embeddedKey embedded ns r.name = some (objectKey apiVersion kind ns r.name) := by
        simp [embeddedKey, ha, hkind]
      simp only [deleteEmbedded, ha, hkind, hkey]
      refine (keeps_deleteKey (hk _ hkey) hn hr).weaken (fun _ h' hd => ⟨hd.1, ?_⟩) fun _ _ hg => hg
      intro k heq
      cases heq
      exact hd.2

theorem mem_ownKeys {ns : String} (hns : r.ns = some ns) (k : ObjectKey) :
    k ∈ ownKeys r ↔ k = machineKey ns r.name ∨
      embeddedKey r.spec.bootstrapSpec ns r.name = some k ∨
      embeddedKey r.spec.infrastructureSpec ns r.name = some k := by
  simp [ownKeys, hns]

theorem keeps_removeMachine (s : Settings) {ns : String} (hns : r.ns = some ns) (hn : NoCreate h)
    (hr : Removing r h) :
    Keeps (Permitted r) (removeMachineFromCluster s r ns) h (fun _ h' => Steadier h h' ∧ Removed r h')
      fun _ h' => Steadier h h' := by
  have hkeys := mem_ownKeys hns
  refine (keeps_deleteKey ((hkeys _).mpr (Or.inl rfl)) hn hr).bind (fun _ h₁ hd₁ => ?_)
    fun _ _ hg => hg
  obtain ⟨hg₁, hd₁⟩ := hd₁
  refine (keeps_deleteEmbedded (fun k hk => (hkeys k).mpr (Or.inr (Or.inl hk)))
    (hn.after hg₁) (hr.after fun _ => hg₁.mem)).bind (fun _ h₂ hd₂ => ?_) fun _ _ hg => hg₁.trans hg
  obtain ⟨hg₂, hd₂⟩ := hd₂
  have hg₁₂ := hg₁.trans hg₂
  refine (keeps_deleteEmbedded (fun k hk => (hkeys k).mpr (Or.inr (Or.inr hk)))
    (hn.after hg₁₂) (hr.after fun _ => hg₁₂.mem)).weaken (fun _ h₃ hd₃ => ?_) fun _ _ hg => hg₁₂.trans hg
  obtain ⟨hg₃, hd₃⟩ := hd₃
  refine ⟨hg₁₂.trans hg₃, fun k hk => ?_⟩
  rcases (hkeys k).mp hk with rfl | hk | hk
  · exact (hd₁.after fun _ => hg₂.mem).after fun _ => hg₃.mem
  · exact (hd₂ k hk).after fun _ => hg₃.mem
  · exact hd₃ k hk

end Actions

section Adding

theorem machineApiVersionFor_plain (s : Settings) (bootstrapApiVersion : Option String) :
    '/' ∉ (machineApiVersionFor s.capiMachineApiVersion bootstrapApiVersion).toList := by
  unfold machineApiVersionFor
  split
  · rename_i version hsplit
    split
    · exact s.servedVersion
    · obtain ⟨apiVersion, _, hsplit⟩ := Option.bind_eq_some_iff.mp hsplit
      exact Text.notMem_of_rsplitOnce hsplit
  · exact s.servedVersion

theorem objectKey_machine (s : Settings) (bootstrapApiVersion : Option String) (ns name : String) :
    objectKey (capiGroup ++ "/" ++ machineApiVersionFor s.capiMachineApiVersion bootstrapApiVersion)
      "Machine" ns name = machineKey ns name := by
  have hplural : resourcePlural "Machine" = capiResourceMachines := by decide
  have hgroup := Text.rsplitOnce_join capiGroup (machineApiVersionFor_plain s bootstrapApiVersion)
  simp [objectKey, machineKey, parseApiVersion, hgroup, hplural]

theorem parseApiVersion_machine (s : Settings) (bootstrapApiVersion : Option String) :
    (parseApiVersion (capiGroup ++ "/" ++
      machineApiVersionFor s.capiMachineApiVersion bootstrapApiVersion)).2 =
      machineApiVersionFor s.capiMachineApiVersion bootstrapApiVersion := by
  have hsplit := Text.rsplitOnce_join capiGroup (machineApiVersionFor_plain s bootstrapApiVersion)
  simp [parseApiVersion, hsplit]

theorem keeps_create {context apiVersion kind ns name : String} {body : Json} (ha : Adding r h)
    (hn : NoPhase h) (hk : objectKey apiVersion kind ns name ∈ ownKeys r)
    (hgroup : (parseApiVersion apiVersion).1 ∈ creatableGroups) :
    Keeps (Permitted r) (createDynamicResource context apiVersion kind ns name body) h
      (fun _ h' => Unphased h h' ∧ Created h' (objectKey apiVersion kind ns name))
      fun _ h' => Unphased h h' := by
  refine (keeps_ask (.create ha hn hk hgroup)).bind (fun x h' hh => ?_) fun _ _ hf => hf.elim
  have hgrown : Unphased h h' := by
    subst hh
    exact .cons (.refl h) (by rfl) x
  have hcreated : createDone x = true → Created h' (objectKey apiVersion kind ns name) := by
    subst hh
    exact fun hdone => ⟨_, body, x, List.mem_cons_self, hdone⟩
  cases x with
  | ok _ => exact ⟨hgrown, hcreated rfl⟩
  | error e =>
    simp only
    split
    · rename_i hexists
      exact ⟨hgrown, hcreated hexists⟩
    · exact ⟨hgrown⟩

theorem group_mem_of_validateApiGroup {apiVersion resourceType : String} {allowed : List String}
    (hv : validateApiGroup apiVersion allowed resourceType = .ok ()) :
    (parseApiVersion apiVersion).1 ∈ allowed := by
  unfold validateApiGroup at hv
  split at hv
  · cases hv
  · rename_i group version hsplit
    split at hv
    · rename_i hmem
      simpa [parseApiVersion, hsplit] using hmem
    · cases hv

theorem required_eq_ok {α : Type} {text : String} {o : Option α} {a : α}
    (h : required text o = .ok a) : o = some a := by
  cases o with
  | none => cases h
  | some b =>
    cases h
    rfl

theorem keeps_addMachine (s : Settings) {ns : String} (hns : r.ns = some ns) (ha : Adding r h)
    (hs : Steady h) :
    Keeps (Permitted r) (addMachineToCluster s r ns) h (fun _ h' => Unphased h h' ∧ Made r h')
      fun _ h' => Unphased h h' := by
  have hkeys := mem_ownKeys hns
  refine (keeps_ask (.creating ha hs)).bind (fun _ h₀ hh₀ => ?_) fun _ _ hf => hf.elim
  have hg : Unphased h h₀ := by
    subst hh₀
    exact .cons (.refl h) (by rfl) _
  clear hh₀
  -- the checks and access reviews leave the history as it was, up to quiet calls
  refine keeps_checked _ (fun bootstrapApiVersion hba => ?_) fun _ => hg
  refine keeps_checked _ (fun bootstrapKind hbk => ?_) fun _ => hg
  refine keeps_checked _ (fun infraApiVersion hia => ?_) fun _ => hg
  refine keeps_checked _ (fun infraKind hik => ?_) fun _ => hg
  refine keeps_checked _ (fun _ _ => ?_) fun _ => hg
  refine keeps_checked _ (fun _ _ => ?_) fun _ => hg
  refine keeps_checked _ (fun _ hbg => ?_) fun _ => hg
  refine keeps_checked _ (fun _ hig => ?_) fun _ => hg
  refine keeps_quietly (still_ensureCanCreate _ _ _ _).quietly (fun _ h₁ hq₁ => ?_)
    fun _ _ hq => hg.trans hq.unphased
  refine keeps_quietly (still_ensureCanCreate _ _ _ _).quietly (fun _ h₂ hq₂ => ?_)
    fun _ _ hq => hg.trans (Quieter.unphased (hq₁.trans hq))
  refine keeps_quietly (still_ensureCanCreate _ _ _ _).quietly (fun _ h₃ hq₃ => ?_)
    fun _ _ hq => hg.trans (Quieter.unphased ((hq₁.trans hq₂).trans hq))
  replace hg : Unphased h h₃ := hg.trans (Quieter.unphased ((hq₁.trans hq₂).trans hq₃))
  refine keeps_checked _ (fun _ _ => ?_) fun _ => hg
  refine keeps_checked _ (fun _ _ => ?_) fun _ => hg
  refine keeps_checked _ (fun _ _ => ?_) fun _ => hg
  refine keeps_checked _ (fun uid _ => ?_) fun _ => hg
  have hbootstrap : objectKey bootstrapApiVersion bootstrapKind ns r.name ∈ ownKeys r := by
    refine (hkeys _).mpr (Or.inr (Or.inl ?_))
    simp [embeddedKey, required_eq_ok hba, required_eq_ok hbk]
  have hinfra : objectKey infraApiVersion infraKind ns r.name ∈ ownKeys r := by
    refine (hkeys _).mpr (Or.inr (Or.inr ?_))
    simp [embeddedKey, required_eq_ok hia, required_eq_ok hik]
  have hmachine := (hkeys _).mpr (Or.inl (objectKey_machine s (some bootstrapApiVersion) ns r.name))
  have hmachineGroup : (parseApiVersion (capiGroup ++ "/" ++
      machineApiVersionFor s.capiMachineApiVersion (some bootstrapApiVersion))).1 ∈
        creatableGroups := by
    have hgroup := congrArg ObjectKey.group (objectKey_machine s (some bootstrapApiVersion) ns r.name)
    exact (congrArg (· ∈ creatableGroups) hgroup).mpr List.mem_cons_self
  have hn := hs.noPhase
  refine (keeps_create (ha.after fun _ => hg.mem) (hn.after hg) hbootstrap
    (List.mem_cons_of_mem _ (List.mem_append_left _ (group_mem_of_validateApiGroup hbg)))).bind
    (fun _ h₄ hc₄ => ?_) fun _ _ hg' => hg.trans hg'
  obtain ⟨hg₄, hc₄⟩ := hc₄
  replace hg := hg.trans hg₄
  refine (keeps_create (ha.after fun _ => hg.mem) (hn.after hg) hinfra
    (List.mem_cons_of_mem _ (List.mem_append_right _ (group_mem_of_validateApiGroup hig)))).bind
    (fun _ h₅ hc₅ => ?_) fun _ _ hg' => hg.trans hg'
  obtain ⟨hg₅, hc₅⟩ := hc₅
  replace hg := hg.trans hg₅
  refine (keeps_create (ha.after fun _ => hg.mem) (hn.after hg) hmachine hmachineGroup).weaken
    (fun _ h₆ hc₆ => ?_) fun _ _ hg' => hg.trans hg'
  obtain ⟨hg₆, hc₆⟩ := hc₆
  refine ⟨hg.trans hg₆, fun k hk => ?_⟩
  rcases (hkeys k).mp hk with rfl | hk | hk
  · rwa [objectKey_machine] at hc₆
  · obtain rfl : objectKey bootstrapApiVersion bootstrapKind ns r.name = k := by
      simpa [embeddedKey, required_eq_ok hba, required_eq_ok hbk] using hk
    exact (hc₄.after fun _ => hg₅.mem).after fun _ => hg₆.mem
  · obtain rfl : objectKey infraApiVersion infraKind ns r.name = k := by
      simpa [embeddedKey, required_eq_ok hia, required_eq_ok hik] using hk
    exact hc₅.after fun _ => hg₆.mem

end Adding

section Draining

variable {client : Client} {node : String}

theorem keeps_evicting {x : Reconcile α} {pods : List Pod} (hx : Evicting client x)
    (hr : Removing r h) (hb : Bound r h node) (hpods : ⟨.listPods client node, .ok pods⟩ ∈ h) :
    Keeps (Permitted r) x h (fun _ h' => Quieter h h') fun _ h' => Quieter h h' := by
  refine ⟨meets_outcome_mono (uses_run_meets hx.uses fun h' q hg hq => ?_) ?_ ?_⟩
  · rcases Request.calm_or_deletePod hq with hq | ⟨ns, name, rfl⟩
    · exact .calm hq
    · exact .quiet rfl (fun _ => hr.after fun _ => hg.mem)
        fun _ => .deletePod (hb.after fun _ => hg.mem) (hg.mem hpods)
  all_goals exact fun _ _ hg => hg.mono fun _ => Request.quiet_of_evicts

theorem keeps_drain (client : Client) (timeout : Nat) (hr : Removing r h) (hb : Bound r h node) :
    Keeps (Permitted r) (drainNodeWithTimeout client node timeout) h (fun _ h' => Quieter h h')
      fun _ h' => Quieter h h' := by
  have hcordon : Keeps (Permitted r) (cordonNode client node) h (fun _ h' => Quieter h h')
      fun _ h' => Quieter h h' := by
    refine keeps_ask_bind (.quiet rfl (fun _ => hr) fun _ => .patchNode hb) fun x => ?_
    have hgrown : ∀ x, Quieter h (⟨.patchNode client node { unschedulable := some true }, x⟩ :: h) :=
      fun x => .cons (.refl h) (by rfl) x
    cases x with
    | ok _ => exact ⟨hgrown _⟩
    | error e => exact ⟨hgrown _⟩
  refine hcordon.bind (fun _ h₁ hq₁ => ?_) fun _ _ hq => hq
  have hlist : Permitted r h₁ (.listPods client node) :=
    .quiet rfl (fun _ => hr.after fun _ => hq₁.mem) fun _ => .listPods (hb.after fun _ => hq₁.mem)
  refine keeps_ask_bind hlist fun x => ?_
  have hq₂ : Quieter h (⟨.listPods client node, x⟩ :: h₁) := hq₁.cons rfl x
  cases x with
  | error e => exact ⟨hq₂⟩
  | ok pods =>
    refine Keeps.weaken (keeps_evicting ?_ (hr.after fun _ => hq₂.mem) (hb.after fun _ => hq₂.mem)
      List.mem_cons_self) (fun _ _ hq => hq₂.trans hq) fun _ _ hq => hq₂.trans hq
    have hpods : Evicting client
        (orCapiError ("Failed to list pods on node " ++ node) (.ok pods)) := calls_pure pods
    refine hpods.bind fun pods => ?_
    split
    · exact calls_pure _
    · exact (calls_call rfl).bind fun start => evicting_evictPods client node timeout start _

theorem keeps_getNodeFromMachine {ns : String} (hns : r.ns = some ns) :
    Keeps (Permitted r) (getNodeFromMachine ns r.name) h
      (fun node h' => Quieter h h' ∧ ∀ name, node = some name → Bound r h' name)
      fun _ h' => Quieter h h' := by
  have hfetch : Keeps (Permitted r) (fetchCapiMachine ns r.name) h
      (fun machine h' => Quieter h h' ∧
        ∀ m, machine = some m → ⟨.get (machineKey ns r.name), .ok m⟩ ∈ h')
      fun _ h' => Quieter h h' := by
    refine keeps_ask_bind (.calm rfl) fun x => ?_
    have hq : ∀ x, Quieter h (⟨.get (machineKey ns r.name), x⟩ :: h) := fun x =>
      .cons (.refl h) (by rfl) x
    cases x with
    | ok machine =>
      refine ⟨hq _, fun m hm => ?_⟩
      cases hm
      exact List.mem_cons_self
    | error e =>
      simp only
      split
      · exact ⟨hq _, by simp⟩
      · exact ⟨hq _⟩
  refine hfetch.bind (fun machine h' hm => ?_) fun _ _ hq => hq
  obtain ⟨hq, hm⟩ := hm
  cases machine with
  | none => exact ⟨hq, by simp⟩
  | some machine =>
    refine ⟨hq, fun name hname => ?_⟩
    obtain ⟨nodeRef, href, rfl⟩ := Option.map_eq_some_iff.mp hname
    exact .machine hns (hm machine rfl) href

theorem keeps_drainBeforeRemoval {ns : String} (hns : r.ns = some ns) (hr : Removing r h) :
    Keeps (Permitted r) (drainBeforeRemoval r ns) h (fun _ h' => Quieter h h')
      fun _ h' => Quieter h h' := by
  refine (keeps_getNodeFromMachine hns).bind (fun nodeName h₁ hn => ?_) fun _ _ hq => hq
  obtain ⟨hq₁, hbound⟩ := hn
  cases nodeName with
  | none => exact ⟨hq₁⟩
  | some nodeName =>
    refine keeps_checked _ (fun timeout _ => ?_) fun _ => hq₁
    refine keeps_quietly (calls_call rfl) (fun x h₂ hq₂ => ?_) fun _ _ hq => hq₁.trans hq
    refine keeps_checked _ (fun client _ => ?_) fun _ => hq₁.trans hq₂
    have hq := hq₁.trans hq₂
    refine (keeps_drain client timeout (hr.after fun _ => hq.mem)
      ((hbound nodeName rfl).after fun _ => hq₂.mem)).attempt (fun _ _ hq₃ => ?_) fun _ _ hq₃ => ?_
    all_goals exact ⟨hq.trans hq₃⟩

end Draining

end FiveSpot.Machine
