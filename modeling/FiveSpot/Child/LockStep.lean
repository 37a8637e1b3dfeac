import FiveSpot.Child.Provenance
import Mathlib.Order.WellFounded

/-!
# The cache and the watchers

The hooks that keep the Node watchers in step with the cache are called after the lock on the map is
released. If nobody changes the entry of a key while another task still owes a hook for it, then cache and
watchers agree whenever no call is in flight. The bound on the cache holds in every run.
-/

namespace FiveSpot.Child

set_option autoImplicit false

open Effects Effects.Pool

section Hooks

def Hook.after (key : CacheKey) (x : Option Client) : Hook → Option Client
  | .evicted k => if k = key then none else x
  | .resolved k client => if k = key then some client else x

def settled (hooks : List Hook) (key : CacheKey) (x : Option Client) : Option Client :=
  hooks.foldl (Hook.after key) x

def hookKeys (hooks : List Hook) : List CacheKey := hooks.map Hook.key

theorem after_of_ne {hook : Hook} {key : CacheKey} {x : Option Client} (h : hook.key ≠ key) :
    hook.after key x = x := by
  cases hook <;> exact if_neg h

def Hook.client : Hook → Option Client
  | .evicted _ => none
  | .resolved _ client => some client

theorem update_eq_after (hook : Hook) (watchers : CacheKey → Option Client) (key : CacheKey) :
    Function.update watchers hook.key hook.client key = hook.after key (watchers key) := by
  by_cases hkey : key = hook.key
  · subst hkey
    cases hook <;> simp [Hook.after, Hook.key, Hook.client]
  · rw [Function.update_of_ne hkey, after_of_ne (Ne.symm hkey)]

theorem settled_of_notMem {hooks : List Hook} {key : CacheKey} {x : Option Client}
    (h : key ∉ hookKeys hooks) : settled hooks key x = x := by
  induction hooks generalizing x with
  | nil => rfl
  | cons hook hooks ih =>
    simp only [hookKeys, List.map_cons, List.mem_cons, not_or] at h
    change settled hooks key (hook.after key x) = x
    rw [ih h.2, after_of_ne (Ne.symm h.1)]

end Hooks

/--
What each task owes, the watchers and the cached clients fit together: no key is owed for by two tasks, and
with its owed hooks called, the watcher of a key runs on the cached client.
-/
structure InStep (dues : Nat → List Hook) (watchers cached : CacheKey → Option Client) : Prop where
  alone : ∀ i j key, key ∈ hookKeys (dues i) → key ∈ hookKeys (dues j) → i = j
  paid : ∀ key, (∀ i, key ∉ hookKeys (dues i)) → watchers key = cached key
  due : ∀ i key, key ∈ hookKeys (dues i) → settled (dues i) key (watchers key) = cached key

section InStep

variable {dues : Nat → List Hook} {watchers cached cached' : CacheKey → Option Client} {i : Nat}

theorem InStep.change (hs : InStep dues watchers cached) (hi : dues i = []) {hooks : List Hook}
    (hfree : ∀ key ∈ hookKeys hooks, ∀ j, j ≠ i → key ∉ hookKeys (dues j))
    (hsame : ∀ key, key ∉ hookKeys hooks → cached' key = cached key)
    (hsettled : ∀ key ∈ hookKeys hooks, settled hooks key (watchers key) = cached' key) :
    InStep (Function.update dues i hooks) watchers cached' where
  alone j j' key hj hj' := by
    by_cases hji : j = i <;> by_cases hji' : j' = i
    · rw [hji, hji']
    · subst hji
      rw [Function.update_self] at hj
      rw [Function.update_of_ne hji'] at hj'
      exact (hfree key hj j' hji' hj').elim
    · subst hji'
      rw [Function.update_self] at hj'
      rw [Function.update_of_ne hji] at hj
      exact (hfree key hj' j hji hj).elim
    · rw [Function.update_of_ne hji] at hj
      rw [Function.update_of_ne hji'] at hj'
      exact hs.alone j j' key hj hj'
  paid key hnone := by
    have hhooks : key ∉ hookKeys hooks := by simpa using hnone i
    rw [hsame key hhooks]
    refine hs.paid key fun j => ?_
    by_cases hji : j = i
    · simp [hji, hi, hookKeys]
    · simpa [hji] using hnone j
  due j key hj := by
    by_cases hji : j = i
    · subst hji
      rw [Function.update_self] at hj ⊢
      exact hsettled key hj
    · rw [Function.update_of_ne hji] at hj ⊢
      have hhooks : key ∉ hookKeys hooks := fun h => hfree key h j hji hj
      rw [hsame key hhooks]
      exact hs.due j key hj

theorem InStep.pay (hs : InStep dues watchers cached) {hook : Hook} {hooks : List Hook}
    (hi : dues i = hook :: hooks) {watchers' : CacheKey → Option Client}
    (hwatchers : ∀ key, watchers' key = hook.after key (watchers key)) :
    InStep (Function.update dues i hooks) watchers' cached := by
  have hkeys : ∀ {key}, key ∈ hookKeys hooks → key ∈ hookKeys (dues i) := fun h => by
    rw [hi]
    exact List.mem_cons_of_mem _ h
  have hhead : hook.key ∈ hookKeys (dues i) := by
    rw [hi]
    exact List.mem_cons_self
  have howner : ∀ {j key}, key ∈ hookKeys (Function.update dues i hooks j) → key ∈ hookKeys (dues j) := by
    intro j key h
    by_cases hji : j = i
    · subst hji
      rw [Function.update_self] at h
      exact hkeys h
    · rwa [Function.update_of_ne hji] at h
  have hpaid : ∀ key, settled hooks key (watchers' key) = settled (dues i) key (watchers key) := by
    intro key
    rw [hwatchers, hi]
    rfl
  refine ⟨fun j j' key hj hj' => hs.alone j j' key (howner hj) (howner hj'), fun key hnone => ?_,
    fun j key hj => ?_⟩
  · have hhooks : key ∉ hookKeys hooks := by simpa using hnone i
    by_cases hkey : hook.key = key
    · subst hkey
      rw [← hs.due i _ hhead, ← hpaid, settled_of_notMem hhooks]
    · rw [hwatchers, after_of_ne hkey]
      refine hs.paid key fun j hj => ?_
      by_cases hji : j = i
      · subst hji
        rw [hi] at hj
        rcases List.mem_cons.mp hj with heq | hmem
        · exact hkey heq.symm
        · exact hhooks hmem
      · exact hnone j (by rwa [Function.update_of_ne hji])
  · by_cases hji : j = i
    · subst hji
      rw [Function.update_self, hpaid]
      exact hs.due j key (howner hj)
    · rw [Function.update_of_ne hji] at hj ⊢
      have hkey : hook.key ≠ key := fun heq => hji (hs.alone j i key hj (heq ▸ hhead))
      rw [hwatchers, after_of_ne hkey]
      exact hs.due j key hj

end InStep

section Steps

def cachedClient (w : World) (key : CacheKey) : Option Client :=
  (w.cache.lookup key).map CachedEntry.client

def duesAt (tasks : List (Task Request Response Call Outcome)) (i : Nat) : List Hook :=
  tasks[i]?.elim [] fun task => owed task.done

def touched (w : World) (c : Choice) : Request → List CacheKey
  | .insert key _ _ => key :: (victim w.cache key c.tie).toList
  | .remove key => [key]
  | _ => []

/-- No entry is changed while another task owes a hook for it. -/
def orderlyGuard : ChildGuard where
  outside _ _ := True
  spawn _ _ := True
  call s i r c := ∀ key ∈ touched s.world c r, ∀ j, j ≠ i → key ∉ hookKeys (duesAt s.tasks j)

abbrev Orderly (s : ChildState) : Prop :=
  InStep (duesAt s.tasks) s.world.watchers (cachedClient s.world)

variable {s : ChildState} {i : Nat} {task : Task Request Response Call Outcome}

theorem duesAt_of_some (hi : s.tasks[i]? = some task) : duesAt s.tasks i = owed task.done := by
  simp [duesAt, hi]

theorem duesAt_set (hi : s.tasks[i]? = some task) (task' : Task Request Response Call Outcome) :
    duesAt (s.tasks.set i task') = Function.update (duesAt s.tasks) i (owed task'.done) := by
  funext j
  unfold duesAt
  rw [getElem?_set_of_some hi]
  by_cases hij : i = j
  · subst hij
    simp
  · rw [if_neg hij, Function.update_of_ne (Ne.symm hij)]

theorem duesAt_append (tasks : List (Task Request Response Call Outcome)) (c : Call)
    (p : Prog Request Response Outcome) : duesAt (tasks ++ [⟨c, [], p⟩]) = duesAt tasks := by
  funext j
  unfold duesAt
  rw [List.getElem?_append]
  split
  · rfl
  · rename_i hj
    rw [List.getElem?_eq_none (l := tasks) (by omega)]
    cases hsub : ([⟨c, [], p⟩] : List (Task Request Response Call Outcome))[j - tasks.length]? with
    | none => rfl
    | some task =>
      rw [List.mem_singleton.mp (List.mem_of_getElem? hsub)]
      rfl

theorem cachedClient_lookup (w : World) (key : CacheKey) (rv : String) :
    cachedClient (w.lookup key rv).2 = cachedClient w := by
  unfold World.lookup
  split
  · rfl
  · rename_i e he
    split
    · funext key'
      by_cases hkey : key' = key
      · subst hkey
        simp [cachedClient, he]
      · simp [cachedClient, hkey]
    · rfl

theorem cachedClient_insert (w : World) (key : CacheKey) (client : Client) (rv : String) (c : Choice)
    (key' : CacheKey) : cachedClient (w.insert key client rv c).2 key' =
      if key' = key then some client
      else if victim w.cache key c.tie = some key' then none else cachedClient w key' := by
  unfold World.insert cachedClient
  by_cases hkey : key' = key
  · subst hkey
    simp
  · rw [if_neg hkey]
    simp only [AList.lookup_insert_ne hkey]
    cases hvictim : victim w.cache key c.tie with
    | none => simp [trimmed]
    | some k =>
      by_cases hk : key' = k
      · subst hk
        simp [trimmed]
      · have hne : k ≠ key' := fun h => hk h.symm
        simp [trimmed, hk, hne]

theorem cachedClient_remove (w : World) (key key' : CacheKey) :
    cachedClient { w with cache := w.cache.erase key } key' =
      if key' = key then none else cachedClient w key' := by
  by_cases hkey : key' = key
  · subst hkey
    simp [cachedClient]
  · simp [cachedClient, hkey]

theorem settled_insertHooks (key : CacheKey) (client : Client) (replaced : Bool)
    (other : Option CacheKey) (key' : CacheKey) (x : Option Client) :
    settled (insertHooks key client (replaced, other)) key' x =
      if key' = key then some client else if other = some key' then none else x := by
  by_cases hkey : key' = key
  · subst hkey
    cases other <;> cases replaced <;> simp [settled, insertHooks, Hook.after]
  · have hkey' : key ≠ key' := Ne.symm hkey
    cases other <;> cases replaced <;> simp [settled, insertHooks, Hook.after, hkey, hkey']

theorem mem_hookKeys_insertHooks {key : CacheKey} {client : Client} {replaced : Bool}
    {other : Option CacheKey} {key' : CacheKey} :
    key' ∈ hookKeys (insertHooks key client (replaced, other)) ↔ key' ∈ key :: other.toList := by
  cases other <;> cases replaced <;> simp [hookKeys, insertHooks, Hook.key, or_comm]

theorem orderly_unchanged {w : World} {hooks : List Hook} (hs : Orderly s)
    (hi : duesAt s.tasks i = []) (hhooks : hooks = []) (hwatchers : w.watchers = s.world.watchers)
    (hcached : cachedClient w = cachedClient s.world) :
    InStep (Function.update (duesAt s.tasks) i hooks) w.watchers (cachedClient w) := by
  subst hhooks
  rw [hwatchers, hcached]
  exact hs.change hi (fun _ h => by cases h) (fun _ _ => rfl) fun _ h => by cases h

theorem orderly_insert {key : CacheKey} {client : Client} {rv : String} {c : Choice} (hs : Orderly s)
    (hi : duesAt s.tasks i = []) (hG : orderlyGuard.call s i (.insert key client rv) c) :
    InStep (Function.update (duesAt s.tasks) i (insertHooks key client (s.world.insert key client rv c).1))
      (s.world.insert key client rv c).2.watchers (cachedClient (s.world.insert key client rv c).2) := by
  refine hs.change hi (fun key' h => hG key' (mem_hookKeys_insertHooks.mp h)) (fun key' h => ?_)
    fun key' h => ?_
  · rw [mem_hookKeys_insertHooks] at h
    have hne : key' ≠ key := fun heq => h (heq ▸ List.mem_cons_self)
    have hvictim : victim s.world.cache key c.tie ≠ some key' := fun heq =>
      h (List.mem_cons_of_mem _ (by simp [World.insert, heq]))
    rw [cachedClient_insert, if_neg hne, if_neg hvictim]
  · rw [cachedClient_insert]
    change settled (insertHooks key client (_, victim s.world.cache key c.tie)) key' _ = _
    rw [settled_insertHooks]
    rcases List.mem_cons.mp (mem_hookKeys_insertHooks.mp h) with rfl | hvictim
    · simp
    · have hsome : victim s.world.cache key c.tie = some key' := by simpa [World.insert] using hvictim
      simp [hsome]

theorem orderly_remove {key : CacheKey} {c : Choice} (hs : Orderly s) (hi : duesAt s.tasks i = [])
    (hG : orderlyGuard.call s i (.remove key) c) :
    InStep (Function.update (duesAt s.tasks) i (removeHooks key (s.world.cache.lookup key).isSome))
      s.world.watchers (cachedClient { s.world with cache := s.world.cache.erase key }) := by
  cases hlookup : s.world.cache.lookup key with
  | none =>
    refine hs.change hi (fun _ h => by cases h) (fun key' _ => ?_) fun _ h => by cases h
    rw [cachedClient_remove]
    split
    · rename_i heq
      subst heq
      simp [cachedClient, hlookup]
    · rfl
  | some e =>
    refine hs.change hi (fun key' h => hG key' h) (fun key' h => ?_) fun key' h => ?_
    · have hne : key' ≠ key := fun heq => h (heq ▸ List.mem_cons_self)
      rw [cachedClient_remove, if_neg hne]
    · obtain rfl := List.mem_singleton.mp h
      rw [cachedClient_remove, if_pos rfl]
      exact if_pos rfl

theorem watchers_lookup (w : World) (key : CacheKey) (rv : String) :
    (w.lookup key rv).2.watchers = w.watchers := by
  unfold World.lookup
  split
  · rfl
  · split <;> rfl

theorem orderly_called {r : Request} {c : Choice} {rest : Prog Request Response Outcome}
    (hs : Orderly s) (hi : s.tasks[i]? = some task) (hpermits : Permitted task.arg task.done r)
    (hG : orderlyGuard.call s i r c) :
    Orderly ⟨(s.world.exec r c).2, s.tasks.set i (task.answered r (s.world.exec r c).1 rest)⟩ := by
  unfold Orderly
  rw [duesAt_set hi]
  have hdues := duesAt_of_some hi
  obtain ⟨arg, h, code⟩ := task
  simp only [Task.answered] at hpermits hdues ⊢
  cases hpermits with
  | get _ => exact orderly_unchanged hs hdues rfl rfl rfl
  | lookup _ =>
    exact orderly_unchanged hs hdues rfl (watchers_lookup _ _ _) (cachedClient_lookup _ _ _)
  | build _ _ => cases c <;> exact orderly_unchanged hs hdues rfl rfl rfl
  | insert _ _ => exact orderly_insert hs hdues hG
  | remove => exact orderly_remove hs hdues hG
  | @hook _ _ hook hooks howed =>
    rw [howed] at hdues
    cases hook with
    | evicted key =>
      have hrest : owed (⟨.onChildEvicted key, ()⟩ :: h) = hooks := by simp [owed, howed]
      exact hrest.symm ▸ hs.pay hdues (update_eq_after (.evicted key) _)
    | resolved key client =>
      have hrest : owed (⟨.onChildResolved key client, ()⟩ :: h) = hooks := by simp [owed, howed]
      exact hrest.symm ▸ hs.pay hdues (update_eq_after (.resolved key client) _)

theorem orderly_preserved : childPool.Preserves childContract orderlyGuard Orderly where
  outside _ _ hs _ := hs
  spawn s c hs _ := by
    refine ⟨childContract_binds c, ?_⟩
    unfold Orderly
    rw [duesAt_append]
    exact hs
  call _ _ _ _ _ _ hs hi _ hpermits hG := ⟨trivial, orderly_called hs hi hpermits hG⟩

end Steps

section Cap

def Capped (cache : Cache) : Prop := cache.keys.length ≤ childClientCacheCap

theorem leastUsed_ne_nil {cache : Cache} (h : cache.keys ≠ []) : leastUsed cache ≠ [] := by
  have hne : ∃ e, e ∈ cache.entries := List.exists_mem_of_ne_nil _ fun heq => h (by
    rw [AList.keys, heq]
    rfl)
  let age := fun e : Sigma fun _ : CacheKey => CachedEntry => e.2.lastUsed
  have hmem := Function.argminOn_mem age { e | e ∈ cache.entries } hne
  refine List.ne_nil_of_mem (List.mem_map_of_mem (List.mem_filter.mpr ⟨hmem, ?_⟩))
  rw [List.all_eq_true]
  intro e he
  exact decide_eq_true (Function.argminOn_le age { e | e ∈ cache.entries } he)

theorem lruKey_mem {cache : Cache} (h : cache.keys ≠ []) (n : Nat) :
    ∃ k, lruKey cache n = some k ∧ k ∈ cache.keys := by
  have hpos : 0 < (leastUsed cache).length := List.length_pos_of_ne_nil (leastUsed_ne_nil h)
  have hlt : n % (leastUsed cache).length < (leastUsed cache).length := Nat.mod_lt _ hpos
  obtain ⟨k, hk⟩ : ∃ k, lruKey cache n = some k := ⟨_, List.getElem?_eq_getElem hlt⟩
  refine ⟨k, hk, ?_⟩
  obtain ⟨e, he, rfl⟩ := List.mem_map.mp (List.mem_of_getElem? hk)
  exact List.mem_map_of_mem (List.mem_of_mem_filter he)

theorem length_insert_of_mem {cache : Cache} {key : CacheKey} (e : CachedEntry)
    (h : key ∈ cache.keys) : (cache.insert key e).keys.length = cache.keys.length := by
  have hpos := List.length_pos_of_mem h
  rw [AList.keys_insert, List.length_cons, List.length_erase_of_mem h]
  omega

theorem length_insert_le (cache : Cache) (key : CacheKey) (e : CachedEntry) :
    (cache.insert key e).keys.length ≤ cache.keys.length + 1 := by
  rw [AList.keys_insert, List.length_cons]
  exact Nat.succ_le_succ List.length_erase_le

theorem capped_insert {w : World} (hw : Capped w.cache) (key : CacheKey) (client : Client) (rv : String)
    (c : Choice) : Capped (w.insert key client rv c).2.cache := by
  change ((trimmed w.cache (victim w.cache key c.tie)).insert key _).keys.length ≤ _
  unfold Capped at hw
  unfold victim
  split
  · rename_i hfull
    simp only [Bool.and_eq_true, decide_eq_true_eq] at hfull
    have hne : w.cache.keys ≠ [] := fun heq => by
      rw [heq] at hfull
      exact absurd hfull.1 (by decide)
    obtain ⟨k, hk, hmem⟩ := lruKey_mem hne c.tie
    have hpos := List.length_pos_of_mem hmem
    have hlength : (w.cache.erase k).keys.length = w.cache.keys.length - 1 := by
      rw [AList.keys_erase, List.length_erase_of_mem hmem]
    rw [hk]
    have hinsert := length_insert_le (w.cache.erase k) key ⟨client, rv, w.now⟩
    change ((w.cache.erase k).insert key _).keys.length ≤ _
    omega
  · rename_i hroom
    change (w.cache.insert key _).keys.length ≤ _
    by_cases hmem : key ∈ w.cache.keys
    · rw [length_insert_of_mem _ hmem]
      exact hw
    · have hnone : w.cache.lookup key = none := AList.lookup_eq_none.mpr hmem
      simp only [hnone, Option.isNone_none, Bool.and_true, decide_eq_true_eq, not_le] at hroom
      exact (length_insert_le w.cache key _).trans hroom

theorem capped_exec {w : World} (hw : Capped w.cache) (r : Request) (c : Choice) :
    Capped (w.exec r c).2.cache := by
  cases r with
  | lookup key rv =>
    change Capped (w.lookup key rv).2.cache
    unfold World.lookup
    split
    · exact hw
    · rename_i e he
      split
      · have hmem : key ∈ w.cache.keys := AList.lookup_isSome.mp (by rw [he]; rfl)
        unfold Capped
        rw [length_insert_of_mem _ hmem]
        exact hw
      · exact hw
  | insert key client rv => exact capped_insert hw key client rv c
  | remove key =>
    change (w.cache.erase key).keys.length ≤ _
    rw [AList.keys_erase]
    exact List.length_erase_le.trans hw
  | buildClient yaml => cases c <;> exact hw
  | _ => exact hw

theorem capped_preserved :
    childPool.Preserves childContract .free fun s : ChildState => Capped s.world.cache where
  outside _ _ hs _ := hs
  spawn _ c hs _ := ⟨childContract_binds c, hs⟩
  call _ _ _ r _ c hs _ _ _ _ := ⟨trivial, capped_exec hs r c⟩

end Cap

section Runs

theorem owed_of_returned {c : Call} {outcome : Outcome} {h : Log} (hreturned : Returned c outcome h) :
    owed h = [] := by
  cases hreturned with
  | evicted howed => exact howed
  | unusable _ _ _ howed => exact howed
  | built _ _ _ _ howed => exact howed
  | _ => rfl

theorem duesAt_of_quiet {s : ChildState} (hgoverns : Governs childContract s) (hquiet : s.Quiet)
    (i : Nat) : duesAt s.tasks i = [] := by
  unfold duesAt
  cases hi : s.tasks[i]? with
  | none => rfl
  | some task =>
    have htask := List.mem_of_getElem? hi
    obtain ⟨outcome, hresult⟩ := Option.isSome_iff_exists.mp (hquiet task htask)
    exact owed_of_returned (returned_of_governs hgoverns htask hresult)

theorem orderly_fresh (secrets : String → String → Option Secret) :
    Orderly ⟨.fresh secrets, []⟩ where
  alone _ _ _ h := by cases h
  paid _ _ := rfl
  due _ _ h := by cases h

/--
The cache never holds more entries than it may. If no entry is changed while another call owes a hook for
it, the watchers are those of the cached clients whenever no call is in flight.
-/
theorem watchers_match_cache (secrets : String → String → Option Secret)
    (es : List (Event Choice Outside Call)) :
    (childPool.run ⟨.fresh secrets, []⟩ es).world.cache.keys.length ≤ childClientCacheCap ∧
      (orderlyGuard.Allows childPool ⟨.fresh secrets, []⟩ es →
        (childPool.run ⟨.fresh secrets, []⟩ es).Quiet →
        ∀ key, (childPool.run ⟨.fresh secrets, []⟩ es).world.watchers key =
          cachedClient (childPool.run ⟨.fresh secrets, []⟩ es).world key) := by
  constructor
  · exact (capped_preserved.run (s := ⟨.fresh secrets, []⟩) (Nat.zero_le _) governs_empty
      (Guard.free_allows _ es)).1
  · intro hes hquiet key
    obtain ⟨hs, hgoverns⟩ := orderly_preserved.run (orderly_fresh secrets) governs_empty hes
    refine hs.paid key fun i h => ?_
    rw [duesAt_of_quiet hgoverns hquiet i] at h
    cases h

end Runs

section Sample

def orderlyTests : Tests orderlyGuard where
  spawn _ _ := true
  call s i r c := (touched s.world c r).all fun key => (List.range s.tasks.length).all fun j =>
    j == i || !(hookKeys (duesAt s.tasks j)).contains key
  spawn_sound _ _ _ := trivial
  call_sound s i r c h := by
    intro key hkey j hj
    by_cases hlt : j < s.tasks.length
    · have htest := List.all_eq_true.mp (List.all_eq_true.mp h key hkey) j (List.mem_range.mpr hlt)
      simpa [hj] using htest
    · simp [duesAt, List.getElem?_eq_none (Nat.le_of_not_lt hlt), hookKeys]

/--
Two resolves of one Secret build their clients side by side. While the second one owes its hook, a client
for another Secret is cached; that one is evicted in the end.
-/
def sampleTurns : List (Event Choice Outside Call) :=
  .spawn (.resolve (subjectFor "a")) :: .spawn (.resolve (subjectFor "a")) ::
    .spawn (.resolve ⟨some "ns", "d", some ("t", "a")⟩) :: advance 0 3 ++ advance 1 3 ++ advance 0 2 ++
    advance 1 1 ++ advance 2 4 ++ advance 1 2 ++ advance 2 1 ++
    .spawn (.evict ⟨"ns", "t"⟩) :: advance 3 2

theorem turns_keep_step :
    (∀ key, (childPool.run sampleStart sampleTurns).world.watchers key =
        cachedClient (childPool.run sampleStart sampleTurns).world key) ∧
      cachedClient (childPool.run sampleStart sampleTurns).world ⟨"ns", "s"⟩ = some ⟨1, "A"⟩ ∧
      cachedClient (childPool.run sampleStart (sampleTurns.take 16)).world ⟨"ns", "t"⟩ =
        some ⟨2, "A"⟩ ∧
      cachedClient (childPool.run sampleStart sampleTurns).world ⟨"ns", "t"⟩ = none := by
  have hfacts : ((childPool.run sampleStart sampleTurns).tasks.all fun t => t.result.isSome) = true ∧
      cachedClient (childPool.run sampleStart sampleTurns).world ⟨"ns", "s"⟩ = some ⟨1, "A"⟩ ∧
      cachedClient (childPool.run sampleStart (sampleTurns.take 16)).world ⟨"ns", "t"⟩ =
        some ⟨2, "A"⟩ ∧
      cachedClient (childPool.run sampleStart sampleTurns).world ⟨"ns", "t"⟩ = none := by
    decide +kernel
  refine ⟨(watchers_match_cache _ sampleTurns).2 ?_ ?_, hfacts.2⟩
  · exact Tests.allows (T := orderlyTests) (by decide +kernel)
  · exact List.all_eq_true.mp hfacts.1

/-- The Secret is changed while the first client waits for its hook. -/
def sampleRotation : List (Event Choice Outside Call) :=
  .spawn (.resolve (subjectFor "a")) :: advance 0 4 ++
    .outside ⟨fun _ _ => some { sampleSecret with resourceVersion := some "2" }, 1⟩ ::
    .spawn (.resolve (subjectFor "a")) :: advance 1 6 ++ advance 0 1

/-- The entry is evicted while its hook is still to be called. -/
def sampleEviction : List (Event Choice Outside Call) :=
  .spawn (.resolve (subjectFor "a")) :: advance 0 4 ++ .spawn (.evict ⟨"ns", "s"⟩) :: advance 1 2 ++
    advance 0 1

/-- Nothing is in flight, but a watcher runs on a client that is no longer cached. -/
theorem late_hook_breaks_step :
    let s := childPool.run sampleStart sampleRotation
    let s' := childPool.run sampleStart sampleEviction
    (s.tasks.all fun t => t.result.isSome) = true ∧
      s.world.watchers ⟨"ns", "s"⟩ = some ⟨0, "A"⟩ ∧
      cachedClient s.world ⟨"ns", "s"⟩ = some ⟨1, "A"⟩ ∧
      (s'.tasks.all fun t => t.result.isSome) = true ∧
      s'.world.watchers ⟨"ns", "s"⟩ = some ⟨0, "A"⟩ ∧
      cachedClient s'.world ⟨"ns", "s"⟩ = none := by
  decide +kernel

end Sample

end FiveSpot.Child
