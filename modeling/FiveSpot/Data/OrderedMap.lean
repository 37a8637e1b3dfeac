import Mathlib.Data.List.Sort
import Mathlib.Data.List.Perm.Basic

/-!
# Ordered maps

A map as the list of its entries in the order of their keys. Two maps with the same lookups are the same
list, so whatever is read off the entries depends on the lookups only.
-/

namespace FiveSpot

set_option autoImplicit false

structure OrderedMap (K V : Type) [LinearOrder K] where
  entries : List (K × V)
  sorted : entries.Pairwise fun a b => a.1 < b.1

namespace OrderedMap

variable {K V α : Type} [LinearOrder K]

def insertEntries (k : K) (v : V) : List (K × V) → List (K × V)
  | [] => [(k, v)]
  | (k', v') :: rest =>
      if k < k' then (k, v) :: (k', v') :: rest
      else if k = k' then (k, v) :: rest
      else (k', v') :: insertEntries k v rest

theorem key_of_mem_insertEntries {k : K} {v : V} {es : List (K × V)} {e : K × V}
    (h : e ∈ insertEntries k v es) : e.1 = k ∨ e ∈ es := by
  induction es with
  | nil =>
    left
    rw [List.mem_singleton.mp h]
  | cons head rest ih =>
    unfold insertEntries at h
    split at h
    · rcases List.mem_cons.mp h with rfl | h
      · exact .inl rfl
      · exact .inr h
    · split at h
      · rcases List.mem_cons.mp h with rfl | h
        · exact .inl rfl
        · exact .inr (List.mem_cons_of_mem _ h)
      · rcases List.mem_cons.mp h with rfl | h
        · exact .inr List.mem_cons_self
        · exact (ih h).imp_right (List.mem_cons_of_mem _)

theorem sorted_insertEntries {k : K} {v : V} {es : List (K × V)}
    (h : es.Pairwise fun a b => a.1 < b.1) :
    (insertEntries k v es).Pairwise fun a b => a.1 < b.1 := by
  induction es with
  | nil => exact List.pairwise_singleton _ _
  | cons head rest ih =>
    obtain ⟨hhead, hrest⟩ := List.pairwise_cons.mp h
    unfold insertEntries
    split
    · rename_i hlt
      refine List.pairwise_cons.mpr ⟨fun e he => ?_, h⟩
      rcases List.mem_cons.mp he with rfl | he
      · exact hlt
      · exact hlt.trans (hhead e he)
    · rename_i hnlt
      split
      · rename_i heq
        subst heq
        exact List.pairwise_cons.mpr ⟨hhead, hrest⟩
      · rename_i hne
        refine List.pairwise_cons.mpr ⟨fun e he => ?_, ih hrest⟩
        rcases key_of_mem_insertEntries he with hkey | he
        · rw [hkey]
          exact lt_of_le_of_ne (not_lt.mp hnlt) (Ne.symm hne)
        · exact hhead e he

theorem lookup_cons_eq (e : K × V) (es : List (K × V)) (k : K) :
    (e :: es).lookup k = if k = e.1 then some e.2 else es.lookup k := by
  rw [List.lookup_cons]
  by_cases h : k = e.1
  · rw [if_pos h, beq_iff_eq.mpr h]
  · rw [if_neg h, beq_eq_false_iff_ne.mpr h]

theorem lookup_insertEntries (k k' : K) (v : V) (es : List (K × V)) :
    (insertEntries k v es).lookup k' = if k' = k then some v else es.lookup k' := by
  induction es with
  | nil => exact lookup_cons_eq (k, v) [] k'
  | cons head rest ih =>
    unfold insertEntries
    split
    · exact lookup_cons_eq (k, v) _ k'
    · split
      · rename_i heq
        rw [lookup_cons_eq, lookup_cons_eq, ← heq]
        split <;> rfl
      · rename_i hne
        rw [lookup_cons_eq, ih, lookup_cons_eq]
        by_cases h : k' = k
        · rw [if_pos h, if_neg (fun hhead => hne (h.symm.trans hhead)), if_pos h]
        · rw [if_neg h, if_neg h]

def empty : OrderedMap K V := ⟨[], List.Pairwise.nil⟩

def insert (m : OrderedMap K V) (k : K) (v : V) : OrderedMap K V :=
  ⟨insertEntries k v m.entries, sorted_insertEntries m.sorted⟩

def get? (m : OrderedMap K V) (k : K) : Option V := m.entries.lookup k

def contains (m : OrderedMap K V) (k : K) : Bool := (m.get? k).isSome

def values (m : OrderedMap K V) : List V := m.entries.map Prod.snd

variable {m m' : OrderedMap K V} {k k' : K} {v : V}

theorem get?_insert : (m.insert k v).get? k' = if k' = k then some v else m.get? k' :=
  lookup_insertEntries k k' v m.entries

theorem mem_entries_iff {e : K × V} : e ∈ m.entries ↔ m.get? e.1 = some e.2 := by
  obtain ⟨es, hsorted⟩ := m
  unfold get?
  induction es with
  | nil => simp
  | cons head rest ih =>
    obtain ⟨hhead, hrest⟩ := List.pairwise_cons.mp hsorted
    rw [List.mem_cons, ih hrest, lookup_cons_eq]
    by_cases h : e.1 = head.1
    · -- no later entry has the key of the head
      have hlater : rest.lookup e.1 ≠ some e.2 := by
        intro hlookup
        have hlt := hhead e ((ih hrest).mpr hlookup)
        exact absurd h hlt.ne'
      rw [if_pos h, Option.some.injEq]
      constructor
      · rintro (rfl | hlookup)
        · rfl
        · exact absurd hlookup hlater
      · intro hvalue
        exact .inl (Prod.ext h hvalue.symm)
    · rw [if_neg h]
      constructor
      · rintro (rfl | hlookup)
        · exact absurd rfl h
        · exact hlookup
      · exact .inr

theorem mem_values_iff : v ∈ m.values ↔ ∃ k, m.get? k = some v := by
  unfold values
  constructor
  · intro h
    obtain ⟨e, he, rfl⟩ := List.mem_map.mp h
    exact ⟨e.1, mem_entries_iff.mp he⟩
  · rintro ⟨k, hk⟩
    exact List.mem_map.mpr ⟨(k, v), mem_entries_iff.mpr hk, rfl⟩

theorem pairwise_values {name : V → K} (hname : ∀ k v, m.get? k = some v → name v = k) :
    (m.values.map name).Pairwise (· < ·) := by
  have hkeys : m.values.map name = m.entries.map Prod.fst := by
    rw [values, List.map_map]
    exact List.map_congr_left fun e he => hname e.1 e.2 (mem_entries_iff.mp he)
  rw [hkeys, List.pairwise_map]
  exact m.sorted

theorem ext_get? (h : ∀ k, m.get? k = m'.get? k) : m = m' := by
  have hmem : ∀ e, e ∈ m.entries ↔ e ∈ m'.entries := by
    intro e
    rw [mem_entries_iff, mem_entries_iff, h]
  have hnodup : ∀ m : OrderedMap K V, m.entries.Nodup := fun m =>
    m.sorted.imp fun hlt heq => by simp [heq] at hlt
  have hperm := (List.perm_ext_iff_of_nodup (hnodup m) (hnodup m')).mpr hmem
  have hentries : m.entries = m'.entries :=
    hperm.eq_of_pairwise (fun a b _ _ hab hba => absurd (hab.trans hba) (lt_irrefl _)) m.sorted m'.sorted
  obtain ⟨es, hes⟩ := m
  obtain ⟨es', hes'⟩ := m'
  cases hentries
  rfl

section Collecting

def insertNew (m : OrderedMap K V) (k : K) (v : Option V) : OrderedMap K V :=
  if m.contains k then m
  else
    match v with
    | some v => m.insert k v
    | none => m

/-- The first value each key is given in a list. -/
def collect (key : α → K) (value : α → Option V) (l : List α) : OrderedMap K V :=
  l.foldl (fun m a => m.insertNew (key a) (value a)) empty

variable {key : α → K} {value : α → Option V} {l l' : List α}

theorem get?_insertNew (v : Option V) :
    (m.insertNew k v).get? k' = if k' = k then (m.get? k).or v else m.get? k' := by
  unfold insertNew contains
  split
  · rename_i hsome
    obtain ⟨found, hfound⟩ := Option.isSome_iff_exists.mp hsome
    by_cases h : k' = k <;> simp [h, hfound]
  · rename_i hnone
    rw [Bool.not_eq_true, Option.isSome_eq_false_iff, Option.isNone_iff_eq_none] at hnone
    cases v with
    | none => by_cases h : k' = k <;> simp [h, hnone]
    | some v => by_cases h : k' = k <;> simp [h, hnone, get?_insert]

theorem get?_foldl_insertNew :
    (l.foldl (fun m a => m.insertNew (key a) (value a)) m).get? k =
      (m.get? k).or (l.findSome? fun a => if key a = k then value a else none) := by
  induction l generalizing m with
  | nil => simp
  | cons a l ih =>
    rw [List.foldl_cons, ih, get?_insertNew, List.findSome?_cons]
    by_cases h : k = key a
    · subst h
      cases m.get? (key a) <;> cases value a <;> simp
    · simp [h, Ne.symm h]

theorem get?_collect_eq_some_iff {valueOf : K → V}
    (hvalue : ∀ a ∈ l, ∀ v, value a = some v → v = valueOf (key a)) :
    (collect key value l).get? k = some v ↔
      v = valueOf k ∧ ∃ a ∈ l, key a = k ∧ (value a).isSome = true := by
  rw [collect, get?_foldl_insertNew]
  change (Option.or none _) = _ ↔ _
  rw [Option.none_or]
  constructor
  · intro h
    obtain ⟨a, ha, hv⟩ := List.exists_of_findSome?_eq_some h
    split at hv
    · rename_i hkey
      exact ⟨hkey ▸ hvalue a ha v hv, a, ha, hkey, by simp [hv]⟩
    · cases hv
  · rintro ⟨rfl, a, ha, rfl, hsome⟩
    obtain ⟨v, hv⟩ := Option.isSome_iff_exists.mp hsome
    have hfound : (l.findSome? fun b => if key b = key a then value b else none).isSome = true :=
      List.findSome?_isSome_iff.mpr ⟨a, ha, by simp [hv]⟩
    obtain ⟨v', hv'⟩ := Option.isSome_iff_exists.mp hfound
    obtain ⟨b, hb, hif⟩ := List.exists_of_findSome?_eq_some hv'
    split at hif
    · rename_i hkey
      rw [hv', hvalue b hb v' hif, hkey]
    · cases hif

theorem collect_congr {valueOf : K → V} (hvalue : ∀ a v, value a = some v → v = valueOf (key a))
    (hmem : ∀ a, a ∈ l ↔ a ∈ l') : collect key value l = collect key value l' := by
  refine ext_get? fun k => Option.ext fun v => ?_
  rw [get?_collect_eq_some_iff fun a _ => hvalue a, get?_collect_eq_some_iff fun a _ => hvalue a]
  simp only [hmem]

end Collecting

end OrderedMap

end FiveSpot
