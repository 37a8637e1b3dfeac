import FiveSpot.Child.Conduct

/-!
# Which kubeconfig a client comes from

A cached client is found by the Secret and its version; the key inside the Secret is not asked for. If all
resources that go for one Secret name the same key in it, each is given a client built from that key of
the Secret as it read it.
-/

namespace FiveSpot.Child

set_option autoImplicit false

open Effects Effects.Pool Utf8

abbrev ChildState := State Request Response World Call Outcome

abbrev ChildGuard := Guard Request Response World Choice Outside Call Outcome

section Sound

variable (content : CacheKey → String → Option (List (String × Bytes))) (keyOf : CacheKey → String)

/-- No version of a Secret has two contents. -/
def Consistent (secrets : String → String → Option Secret) : Prop :=
  ∀ ns name secret, secrets ns name = some secret → secret.data = content ⟨ns, name⟩ secret.version

/-- A client built from this version of the Secret, from the key all resources name. -/
def Genuine (key : CacheKey) (resourceVersion : String) (client : Client) : Prop :=
  dataAt (content key resourceVersion) (keyOf key) = some (asBytes client.source)

/-- Secrets get a new version with every change, and the resources of one Secret name one key in it. -/
def sameKeyGuard : ChildGuard where
  outside _ o := Consistent content o.secrets
  spawn _ c := ∀ sm t, c = .resolve sm → sm.target = some t → t.key = keyOf t.cacheKey
  call _ _ _ _ := True

def Seen : Sigma Response → Prop
  | ⟨.getSecret ns name, .ok secret⟩ => secret.data = content ⟨ns, name⟩ secret.version
  | ⟨.lookup key resourceVersion, some client⟩ => Genuine content keyOf key resourceVersion client
  | ⟨.buildClient yaml, .ok client⟩ => client.source = yaml
  | _ => True

structure Sound (s : ChildState) : Prop where
  secrets : Consistent content s.world.secrets
  cached : ∀ key e, s.world.cache.lookup key = some e →
    Genuine content keyOf key e.resourceVersion e.client
  keyed : ∀ task ∈ s.tasks, ∀ sm t, task.arg = .resolve sm → sm.target = some t →
    t.key = keyOf t.cacheKey
  seen : ∀ task ∈ s.tasks, ∀ x ∈ task.done, Seen content keyOf x

variable {content keyOf}

theorem lookup_of_erase {cache : Cache} {k key : CacheKey} {e : CachedEntry}
    (h : (cache.erase k).lookup key = some e) : cache.lookup key = some e := by
  by_cases hk : key = k
  · subst hk
    simp at h
  · rwa [AList.lookup_erase_ne hk] at h

theorem lookup_of_trimmed {cache : Cache} {k : Option CacheKey} {key : CacheKey} {e : CachedEntry}
    (h : (trimmed cache k).lookup key = some e) : cache.lookup key = some e := by
  cases k with
  | none => exact h
  | some k => exact lookup_of_erase h

theorem genuine_insert {cache : Cache} {key : CacheKey} {e : CachedEntry}
    (hcached : ∀ key e, cache.lookup key = some e → Genuine content keyOf key e.resourceVersion e.client)
    (he : Genuine content keyOf key e.resourceVersion e.client) (key' : CacheKey) (e' : CachedEntry)
    (h : (cache.insert key e).lookup key' = some e') :
    Genuine content keyOf key' e'.resourceVersion e'.client := by
  by_cases hk : key' = key
  · subst hk
    rw [AList.lookup_insert] at h
    cases h
    exact he
  · rw [AList.lookup_insert_ne hk] at h
    exact hcached key' e' h

theorem seen_exec {w : World} (hsecrets : Consistent content w.secrets)
    (hcached : ∀ key e, w.cache.lookup key = some e →
      Genuine content keyOf key e.resourceVersion e.client) (r : Request) (c : Choice) :
    Seen content keyOf ⟨r, (w.exec r c).1⟩ := by
  cases r with
  | getSecret ns name =>
    change Seen content keyOf ⟨.getSecret ns name, w.getSecret ns name c⟩
    cases hsecret : w.secrets ns name with
    | none => cases c <;> simp only [World.getSecret, hsecret] <;> trivial
    | some secret =>
      have hdata := hsecrets ns name secret hsecret
      cases c <;> simp only [World.getSecret, hsecret] <;> first | exact hdata | trivial
  | lookup key rv =>
    change Seen content keyOf ⟨.lookup key rv, (w.lookup key rv).1⟩
    unfold World.lookup
    split
    · trivial
    · rename_i e he
      split
      · rename_i hversion
        subst hversion
        exact hcached key e he
      · trivial
  | buildClient yaml =>
    change Seen content keyOf ⟨.buildClient yaml, (w.buildClient yaml c).1⟩
    cases c <;> first | exact rfl | trivial
  | _ => trivial

theorem cached_exec {w : World} {r : Request}
    (hcached : ∀ key e, w.cache.lookup key = some e →
      Genuine content keyOf key e.resourceVersion e.client)
    (hinsert : ∀ key client rv, r = .insert key client rv → Genuine content keyOf key rv client)
    (c : Choice) : ∀ key e, (w.exec r c).2.cache.lookup key = some e →
      Genuine content keyOf key e.resourceVersion e.client := by
  cases r with
  | lookup key rv =>
    change ∀ key' e', (w.lookup key rv).2.cache.lookup key' = some e' → _
    unfold World.lookup
    split
    · exact hcached
    · rename_i e he
      split
      · exact genuine_insert hcached (hcached key e he)
      · exact hcached
  | insert key client rv =>
    refine genuine_insert (fun key' e' h => hcached key' e' (lookup_of_trimmed h)) ?_
    exact hinsert key client rv rfl
  | remove key => exact fun key' e' h => hcached key' e' (lookup_of_erase h)
  | buildClient yaml => cases c <;> exact hcached
  | _ => exact hcached

theorem secrets_exec (w : World) (r : Request) (c : Choice) : (w.exec r c).2.secrets = w.secrets := by
  cases r with
  | lookup key rv =>
    change (w.lookup key rv).2.secrets = w.secrets
    unfold World.lookup
    split
    · rfl
    · split <;> rfl
  | buildClient yaml => cases c <;> rfl
  | _ => rfl

theorem genuine_of_permitted {c : Call} {h : Log} {key : CacheKey} {client : Client} {rv : String}
    (hpermits : Permitted c h (.insert key client rv))
    (hkeyed : ∀ sm t, c = .resolve sm → sm.target = some t → t.key = keyOf t.cacheKey)
    (hseen : ∀ x ∈ h, Seen content keyOf x) : Genuine content keyOf key rv client := by
  generalize hr : Request.insert key client rv = r at hpermits
  cases hpermits with
  | @insert sm t secret yaml client' ht hdata =>
    cases hr
    have hsource : client.source = yaml := hseen ⟨.buildClient yaml, .ok client⟩ List.mem_cons_self
    have hread : secret.data = content t.cacheKey secret.version :=
      hseen ⟨.getSecret t.ns t.secretName, .ok secret⟩ (by simp [missed, got])
    unfold Genuine
    rw [← hread, ← hkeyed sm t rfl ht, hdata, hsource]
  | @hook c h hook hooks howed => cases hook <;> cases hr
  | _ => cases hr

theorem sound_preserved :
    childPool.Preserves childContract (sameKeyGuard content keyOf) (Sound content keyOf) where
  outside s o hs hG := ⟨hG, hs.cached, hs.keyed, hs.seen⟩
  spawn s a hs hG := by
    refine ⟨childContract_binds a, hs.secrets, hs.cached, fun task htask => ?_, fun task htask => ?_⟩
    · rcases List.mem_append.mp htask with htask | htask
      · exact hs.keyed task htask
      · rw [List.mem_singleton.mp htask]
        exact hG
    · rcases List.mem_append.mp htask with htask | htask
      · exact hs.seen task htask
      · rw [List.mem_singleton.mp htask]
        exact fun x hx => by cases hx
  call s i task r k c hs hi _ hpermits _ := by
    have hmem := List.mem_of_getElem? hi
    have hinsert : ∀ key client rv, r = .insert key client rv → Genuine content keyOf key rv client := by
      rintro key client rv rfl
      exact genuine_of_permitted hpermits (hs.keyed task hmem) (hs.seen task hmem)
    refine ⟨trivial, ?_, cached_exec hs.cached hinsert c, fun task' htask' => ?_, fun task' htask' => ?_⟩
    · exact (secrets_exec s.world r c).symm ▸ hs.secrets
    · rcases List.mem_or_eq_of_mem_set htask' with htask' | rfl
      · exact hs.keyed task' htask'
      · exact hs.keyed task hmem
    · rcases List.mem_or_eq_of_mem_set htask' with htask' | rfl
      · exact hs.seen task' htask'
      · intro x hx
        rcases List.mem_cons.mp hx with rfl | hx
        · exact seen_exec hs.secrets hs.cached r c
        · exact hs.seen task hmem x hx

theorem sound_fresh {secrets : String → String → Option Secret} (h : Consistent content secrets) :
    Sound content keyOf ⟨.fresh secrets, []⟩ where
  secrets := h
  cached _ _ he := by cases he
  keyed _ ht := by cases ht
  seen _ ht := by cases ht

theorem secret_of_ownRead {t : Target} {secret secret' : Secret} {h : Log}
    (hread : OwnRead t secret h) (hread' : OwnRead t secret' h) : secret' = secret := by
  have heq := Option.some.inj (hread.symm.trans hread')
  cases heq
  rfl

theorem returned_of_governs {s : ChildState} (hgoverns : Governs childContract s)
    {task : Task Request Response Call Outcome} (htask : task ∈ s.tasks) {outcome : Outcome}
    (hresult : task.result = some outcome) : Returned task.arg outcome task.done := by
  obtain ⟨arg, done, rest⟩ := task
  have hbinds := hgoverns _ htask
  cases rest with
  | pure a =>
    cases hresult
    exact hbinds
  | call r k => cases hresult

/--
Every client for a child cluster that `resolve` returns was built from the resource's own key of the
Secret, as that call read it; and a key that is missing there is reported.
-/
theorem resolved_from_own_secret (content : CacheKey → String → Option (List (String × Bytes)))
    (keyOf : CacheKey → String) (secrets : String → String → Option Secret)
    (hsecrets : Consistent content secrets) (es : List (Event Choice Outside Call))
    (hes : (sameKeyGuard content keyOf).Allows childPool ⟨.fresh secrets, []⟩ es)
    (task : Task Request Response Call Outcome)
    (htask : task ∈ (childPool.run ⟨.fresh secrets, []⟩ es).tasks)
    (sm : Subject) (t : Target) (harg : task.arg = .resolve sm) (ht : sm.target = some t)
    (result : Except ReconcilerError ResolvedClient)
    (hresult : task.result = some (.resolved result)) :
    (∀ client key rv, result = .ok (.child client key rv) →
        ∃ secret, OwnRead t secret task.done ∧
          dataAt secret.data t.key = some (asBytes client.source)) ∧
      ∀ secret, OwnRead t secret task.done → dataAt secret.data t.key = none →
        result = .error (.kubeconfigSecretMissingKey t.ns t.secretName t.key) := by
  obtain ⟨hs, hgoverns⟩ := sound_preserved.run (sound_fresh hsecrets) governs_empty hes
  have hreturned := returned_of_governs hgoverns htask hresult
  have hseen := hs.seen task htask
  have hkey := hs.keyed task htask sm t harg ht
  rw [harg] at hreturned
  generalize task.done = h at hreturned hseen ⊢
  cases hreturned with
  | unnamed hnone => cases hnone.symm.trans ht
  | @unread _ t' e _ ht' hnot =>
    obtain rfl := Option.some.inj (ht'.symm.trans ht)
    refine ⟨fun client key rv heq => (hnot client key rv heq).elim, fun secret hread => ?_⟩
    cases hread
  | @hit _ t' secret client ht' =>
    obtain rfl := Option.some.inj (ht'.symm.trans ht)
    have hread : secret.data = content t'.cacheKey secret.version :=
      hseen ⟨.getSecret t'.ns t'.secretName, .ok secret⟩ (by simp [got])
    have hgenuine : dataAt secret.data t'.key = some (asBytes client.source) := by
      rw [hread, hkey]
      exact hseen ⟨.lookup t'.cacheKey secret.version, some client⟩ List.mem_cons_self
    refine ⟨?_, fun secret' hread' hnone => ?_⟩
    · rintro _ _ _ ⟨⟩
      exact ⟨secret, rfl, hgenuine⟩
    · rw [secret_of_ownRead (h := _ :: got t' secret) rfl hread', hgenuine] at hnone
      cases hnone
  | @missing _ t' secret ht' hnone =>
    obtain rfl := Option.some.inj (ht'.symm.trans ht)
    refine ⟨fun _ _ _ heq => ?_, fun _ _ _ => rfl⟩
    cases heq
  | @unusable _ t' secret raw reason _ ht' hdata hread _ =>
    obtain rfl := Option.some.inj (ht'.symm.trans ht)
    refine ⟨fun _ _ _ heq => ?_, fun secret' hread' hnone => ?_⟩
    · cases heq
    · rw [secret_of_ownRead hread hread', hdata] at hnone
      cases hnone
  | @built _ t' secret yaml client _ ht' hdata hread hbuilt _ =>
    obtain rfl := Option.some.inj (ht'.symm.trans ht)
    have hsource : client.source = yaml := hseen _ hbuilt
    refine ⟨?_, fun secret' hread' hnone => ?_⟩
    · rintro _ _ _ ⟨⟩
      exact ⟨secret, hread, hsource ▸ hdata⟩
    · rw [secret_of_ownRead hread hread', hdata] at hnone
      cases hnone

end Sound

section Sample

def sampleSecret : Secret := ⟨some "1", some [("a", [0x41]), ("b", [0x42])]⟩

def sampleStart : ChildState := ⟨.fresh fun _ _ => some sampleSecret, []⟩

def subjectFor (key : String) : Subject := ⟨some "ns", "c", some ("s", key)⟩

def advance (i n : Nat) : List (Event Choice Outside Call) := List.replicate n (.next i .ok)

def resolveTwice (key key' : String) : List (Event Choice Outside Call) :=
  .spawn (.resolve (subjectFor key)) :: advance 0 5 ++ .spawn (.resolve (subjectFor key')) :: advance 1 5

def sampleContent (_ : CacheKey) (_ : String) : Option (List (String × Bytes)) := sampleSecret.data

def sameKeyTests : Tests (sameKeyGuard sampleContent fun _ => "a") where
  spawn _ c :=
    match c with
    | .resolve sm => sm.target.all fun t => t.key == "a"
    | .evict _ => true
  call _ _ _ _ := true
  spawn_sound _ c h := by
    rintro sm t rfl ht
    simpa [ht] using h
  call_sound _ _ _ _ _ := trivial

/-- Two resources that name the same key: the second is given the cached client. -/
theorem cached_client_is_genuine :
    let s := childPool.run sampleStart (resolveTwice "a" "a")
    ∃ task secret, task ∈ s.tasks ∧ task.done.length = 2 ∧
      task.result = some (.resolved (.ok (.child ⟨0, "A"⟩ ⟨"ns", "s"⟩ "1"))) ∧
      OwnRead ⟨"ns", "s", "a"⟩ secret task.done ∧ dataAt secret.data "a" = some (asBytes "A") := by
  have hfacts : ((childPool.run sampleStart (resolveTwice "a" "a")).tasks[1]?.map fun task =>
      (task.arg, task.done.length, task.result)) = some (.resolve (subjectFor "a"), 2,
        some (.resolved (.ok (.child ⟨0, "A"⟩ ⟨"ns", "s"⟩ "1")))) := by
    decide +kernel
  obtain ⟨task, hget, heq⟩ := Option.map_eq_some_iff.mp hfacts
  simp only [Prod.mk.injEq] at heq
  obtain ⟨harg, hlength, hresult⟩ := heq
  have htask := List.mem_of_getElem? hget
  obtain ⟨hok, _⟩ := resolved_from_own_secret sampleContent (fun _ => "a") (fun _ _ => some sampleSecret)
    (fun _ _ _ h => by cases h; rfl) (resolveTwice "a" "a")
    (Tests.allows (T := sameKeyTests) (by decide +kernel)) task htask (subjectFor "a") _ harg rfl _ hresult
  obtain ⟨secret, hread, hdata⟩ := hok _ _ _ rfl
  exact ⟨task, secret, htask, hlength, hresult, hread, hdata⟩

/-- Resources that name another key, or one that is not there, are given the same client. -/
theorem client_of_another_key :
    (childPool.run sampleStart (resolveTwice "a" "b")).tasks.map Task.result =
        List.replicate 2 (some (.resolved (.ok (.child ⟨0, "A"⟩ ⟨"ns", "s"⟩ "1")))) ∧
      dataAt sampleSecret.data "b" = some (asBytes "B") ∧
      (childPool.run sampleStart (resolveTwice "a" "z")).tasks.map Task.result =
        List.replicate 2 (some (.resolved (.ok (.child ⟨0, "A"⟩ ⟨"ns", "s"⟩ "1")))) ∧
      dataAt sampleSecret.data "z" = none := by
  decide +kernel

end Sample

end FiveSpot.Child
