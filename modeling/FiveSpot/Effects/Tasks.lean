import Mathlib.Data.Finset.Basic
import Mathlib.Data.List.AList

/-!
# One task for each key

Tasks that run until they are aborted, started and aborted through a table of their handles. The table
is brought in line with the set of keys that are wanted by aborting the others and starting those that
are missing, in any order.
-/

namespace FiveSpot.Effects

set_option autoImplicit false

variable {α : Type} [DecidableEq α]

/-- The handles by key, and the tasks that run, each with its identity and its key. -/
structure Tasks (α : Type) [DecidableEq α] where
  handles : AList fun _ : α => Nat
  running : List (Nat × α)
  spawned : Nat
  held : ∀ id key, (id, key) ∈ running ↔ handles.lookup key = some id
  unique : (running.map Prod.fst).Nodup
  fresh : ∀ task ∈ running, task.1 < spawned

namespace Tasks

def empty : Tasks α where
  handles := ∅
  running := []
  spawned := 0
  held := by simp
  unique := List.nodup_nil
  fresh := by simp

def keys (s : Tasks α) : List α := s.running.map Prod.snd

variable {s : Tasks α} {key key' : α}

theorem mem_keys_iff : key ∈ s.keys ↔ (s.handles.lookup key).isSome := by
  rw [keys, List.mem_map, Option.isSome_iff_exists]
  constructor
  · rintro ⟨⟨id, _⟩, htask, rfl⟩
    exact ⟨id, (s.held id _).mp htask⟩
  · rintro ⟨id, hid⟩
    exact ⟨(id, key), (s.held id key).mpr hid, rfl⟩

theorem nodup_keys (s : Tasks α) : s.keys.Nodup := by
  refine List.Nodup.map_on ?_ s.unique.of_map
  rintro ⟨id, key⟩ htask ⟨id', key'⟩ htask' rfl
  have hid := ((s.held id key).mp htask).symm.trans ((s.held id' key).mp htask')
  rw [Option.some.inj hid]

theorem eq_of_running {id : Nat} (h : (id, key) ∈ s.running) (h' : (id, key') ∈ s.running) :
    key = key' :=
  (Prod.ext_iff.mp (List.inj_on_of_nodup_map s.unique h h' rfl)).2

def spawn (s : Tasks α) (key : α) (hnone : s.handles.lookup key = none) : Tasks α where
  handles := s.handles.insert key s.spawned
  running := (s.spawned, key) :: s.running
  spawned := s.spawned + 1
  held id key' := by
    have hheld := s.held id key'
    by_cases hkey : key' = key
    · subst hkey
      rw [hnone] at hheld
      simp only [List.mem_cons, Prod.mk.injEq, and_true, hheld, reduceCtorEq, or_false,
        AList.lookup_insert, Option.some.injEq]
      exact eq_comm
    · simp [hkey, hheld, AList.lookup_insert_ne hkey]
  unique := by
    refine List.nodup_cons.mpr ⟨fun hmem => ?_, s.unique⟩
    obtain ⟨task, htask, hid⟩ := List.mem_map.mp hmem
    exact absurd (s.fresh task htask) (by rw [hid]; exact Nat.lt_irrefl _)
  fresh task htask := by
    rcases List.mem_cons.mp htask with rfl | htask
    · exact Nat.lt_succ_self _
    · exact Nat.lt_succ_of_lt (s.fresh task htask)

def stop (s : Tasks α) (key : α) (id : Nat) (hid : s.handles.lookup key = some id) : Tasks α where
  handles := s.handles.erase key
  running := s.running.filter fun task => task.1 ≠ id
  spawned := s.spawned
  held id' key' := by
    have hheld := s.held id' key'
    rw [List.mem_filter]
    by_cases hkey : key' = key
    · subst hkey
      rw [hid] at hheld
      simp only [hheld, AList.lookup_erase, Option.some.injEq, decide_eq_true_eq, reduceCtorEq,
        iff_false]
      rintro ⟨rfl, hne⟩
      exact hne rfl
    · rw [AList.lookup_erase_ne hkey, ← hheld]
      refine ⟨And.left, fun hrun => ⟨hrun, ?_⟩⟩
      simp only [decide_eq_true_eq]
      rintro rfl
      exact hkey (eq_of_running hrun ((s.held id' key).mpr hid))
  unique := s.unique.sublist (List.filter_sublist.map _)
  fresh task htask := s.fresh task (List.mem_filter.mp htask).1

/-- The visit of one entry by `retain`. -/
def keepIf (wanted : Finset α) (s : Tasks α) (key : α) : Tasks α :=
  match hid : s.handles.lookup key with
  | some id => if key ∈ wanted then s else s.stop key id hid
  | none => s

def retain (wanted : Finset α) (s : Tasks α) : Tasks α := s.handles.keys.foldl (keepIf wanted) s

/-- A vacant entry is filled with a new task. -/
def ensure (s : Tasks α) (key : α) : Tasks α :=
  match hid : s.handles.lookup key with
  | some _ => s
  | none => s.spawn key hid

def sync (wanted : List α) (s : Tasks α) : Tasks α := wanted.foldl ensure (s.retain wanted.toFinset)

theorem lookup_keepIf (wanted : Finset α) : (s.keepIf wanted key).handles.lookup key' =
    if key' = key ∧ key ∉ wanted then none else s.handles.lookup key' := by
  unfold keepIf
  by_cases hkey : key' = key
  · subst hkey
    split
    · split
      · rename_i hwanted
        simp [hwanted]
      · rename_i hwanted
        simp [hwanted, stop]
    · rename_i hnone
      simp [hnone]
  · split
    · split
      · simp [hkey]
      · simp [hkey, stop, AList.lookup_erase_ne hkey]
    · simp [hkey]

theorem lookup_foldl_keepIf (wanted : Finset α) (entries : List α) :
    (entries.foldl (keepIf wanted) s).handles.lookup key =
      if key ∈ entries ∧ key ∉ wanted then none else s.handles.lookup key := by
  induction entries generalizing s with
  | nil => simp
  | cons entry entries ih =>
    rw [List.foldl_cons, ih, lookup_keepIf]
    by_cases hkey : key = entry
    · subst hkey
      by_cases hwanted : key ∈ wanted <;> simp [hwanted]
    · simp [hkey]

theorem lookup_retain (wanted : Finset α) : (s.retain wanted).handles.lookup key =
    if key ∈ wanted then s.handles.lookup key else none := by
  rw [retain, lookup_foldl_keepIf]
  by_cases hwanted : key ∈ wanted
  · simp [hwanted]
  · by_cases hkey : key ∈ s.handles.keys
    · simp [hkey, hwanted]
    · have hnone : s.handles.lookup key = none := AList.lookup_eq_none.mpr hkey
      simp [hnone]

theorem isSome_lookup_ensure : ((s.ensure key).handles.lookup key').isSome ↔
    key' = key ∨ (s.handles.lookup key').isSome := by
  unfold ensure
  by_cases hkey : key' = key
  · subst hkey
    split
    · rename_i id hid
      simp [hid]
    · simp [spawn]
  · split
    · simp [hkey]
    · simp [hkey, spawn, AList.lookup_insert_ne hkey]

theorem isSome_lookup_foldl_ensure (wanted : List α) :
    ((wanted.foldl ensure s).handles.lookup key).isSome ↔
      key ∈ wanted ∨ (s.handles.lookup key).isSome := by
  induction wanted generalizing s with
  | nil => simp
  | cons entry wanted ih =>
    rw [List.foldl_cons, ih, isSome_lookup_ensure, List.mem_cons]
    tauto

theorem mem_keys_sync (wanted : List α) : key ∈ (s.sync wanted).keys ↔ key ∈ wanted := by
  rw [mem_keys_iff, sync, isSome_lookup_foldl_ensure, lookup_retain]
  by_cases hwanted : key ∈ wanted <;> simp [hwanted]

section Identity

/-- What a change of the table leaves of the tasks: they are old ones or have new identities. -/
structure Follows (s s' : Tasks α) : Prop where
  grown : s.spawned ≤ s'.spawned
  known : ∀ id key, s'.handles.lookup key = some id →
    s.handles.lookup key = some id ∨ s.spawned ≤ id

theorem Follows.refl (s : Tasks α) : s.Follows s := ⟨Nat.le_refl _, fun _ _ h => .inl h⟩

theorem Follows.trans {s' s'' : Tasks α} (h : s.Follows s') (h' : s'.Follows s'') :
    s.Follows s'' where
  grown := Nat.le_trans h.grown h'.grown
  known id key hlookup := by
    rcases h'.known id key hlookup with hold | hnew
    · exact h.known id key hold
    · exact .inr (Nat.le_trans h.grown hnew)

theorem follows_stop {id : Nat} (hid : s.handles.lookup key = some id) :
    s.Follows (s.stop key id hid) where
  grown := Nat.le_refl _
  known id' key' hlookup := by
    by_cases hkey : key' = key
    · subst hkey
      simp [stop] at hlookup
    · exact .inl ((AList.lookup_erase_ne hkey).symm.trans hlookup)

theorem follows_spawn (hnone : s.handles.lookup key = none) : s.Follows (s.spawn key hnone) where
  grown := Nat.le_succ _
  known id key' hlookup := by
    by_cases hkey : key' = key
    · subst hkey
      rw [spawn, AList.lookup_insert] at hlookup
      exact .inr (Nat.le_of_eq (Option.some.inj hlookup))
    · exact .inl ((AList.lookup_insert_ne hkey).symm.trans hlookup)

theorem follows_keepIf (wanted : Finset α) : s.Follows (s.keepIf wanted key) := by
  unfold keepIf
  split
  · split
    · exact .refl s
    · exact follows_stop _
  · exact .refl s

theorem follows_ensure : s.Follows (s.ensure key) := by
  unfold ensure
  split
  · exact .refl s
  · exact follows_spawn _

theorem follows_foldl {visit : Tasks α → α → Tasks α} (hvisit : ∀ (s : Tasks α) key, s.Follows (visit s key))
    (entries : List α) : s.Follows (entries.foldl visit s) := by
  induction entries generalizing s with
  | nil => exact .refl s
  | cons entry entries ih => exact (hvisit s entry).trans ih

theorem follows_sync (wanted : List α) : s.Follows (s.sync wanted) :=
  (follows_foldl (fun _ _ => follows_keepIf _) _).trans (follows_foldl (fun _ _ => follows_ensure) _)

theorem lookup_foldl_ensure_of_some (wanted : List α) {id : Nat}
    (hid : s.handles.lookup key = some id) :
    (wanted.foldl ensure s).handles.lookup key = some id := by
  induction wanted generalizing s with
  | nil => exact hid
  | cons entry wanted ih =>
    refine ih ?_
    unfold ensure
    split
    · exact hid
    · rename_i hnone
      have hkey : key ≠ entry := by
        rintro rfl
        cases hid.symm.trans hnone
      exact (AList.lookup_insert_ne hkey).trans hid

theorem running_sync_of_mem {wanted : List α} {id : Nat} (hrun : (id, key) ∈ s.running)
    (hwanted : key ∈ wanted) : (id, key) ∈ (s.sync wanted).running := by
  rw [held] at hrun ⊢
  refine lookup_foldl_ensure_of_some wanted ?_
  rw [lookup_retain, if_pos (List.mem_toFinset.mpr hwanted)]
  exact hrun

end Identity

end Tasks

end FiveSpot.Effects
