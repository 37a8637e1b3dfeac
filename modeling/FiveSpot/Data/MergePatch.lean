import FiveSpot.Data.Json

/-!
# JSON merge patches

A merge patch that is an object goes through its members: a null takes the member away, anything else
is merged into it. Any other patch replaces the value.
-/

namespace FiveSpot.Json

set_option autoImplicit false

def isNull : Json → Bool
  | .null => true
  | _ => false

def removeMember (key : String) (members : List (String × Json)) : List (String × Json) :=
  members.filter fun m => m.1 != key

mutual

def mergePatch : (patch target : Json) → Json
  | .obj members, target => .obj (mergeMembers members (target.asObject?.getD []))
  | .null, _ => .null
  | .bool b, _ => .bool b
  | .int n, _ => .int n
  | .float text, _ => .float text
  | .str s, _ => .str s
  | .arr items, _ => .arr items

def mergeMembers : (patch target : List (String × Json)) → List (String × Json)
  | [], target => target
  | (key, value) :: rest, target =>
      mergeMembers rest <|
        if value.isNull then removeMember key target
        else insertMember key (mergePatch value ((target.lookup key).getD .null)) target

end

def mergeMember (key : String) (value : Json) (target : List (String × Json)) :
    List (String × Json) :=
  if value.isNull then removeMember key target
  else insertMember key (mergePatch value ((target.lookup key).getD .null)) target

theorem mergePatch_of_asObject_eq_none {patch : Json} (h : patch.asObject? = none) (target : Json) :
    mergePatch patch target = patch := by
  cases patch with
  | obj members => cases h
  | null | bool | int | float | str | arr => simp only [mergePatch]

theorem mergeMembers_cons (key : String) (value : Json) (rest target : List (String × Json)) :
    mergeMembers ((key, value) :: rest) target = mergeMembers rest (mergeMember key value target) := by
  rw [mergeMembers, mergeMember]

section Members

variable {key key' : String} {value : Json} {members : List (String × Json)}

theorem lookup_removeMember : (removeMember key members).lookup key = none := by
  induction members with
  | nil => rfl
  | cons m rest ih =>
    obtain ⟨k, v⟩ := m
    by_cases hk : k = key
    · simpa [removeMember, hk] using ih
    · have hkey : (key == k) = false := by simpa using Ne.symm hk
      simpa [removeMember, hk, List.lookup_cons, hkey] using ih

theorem lookup_removeMember_ne (hne : key' ≠ key) :
    (removeMember key members).lookup key' = members.lookup key' := by
  induction members with
  | nil => rfl
  | cons m rest ih =>
    obtain ⟨k, v⟩ := m
    by_cases hk : k = key
    · have hkey : (key' == key) = false := by simpa using hne
      simpa [removeMember, hk, List.lookup_cons, hkey] using ih
    · have hrest : (removeMember key ((k, v) :: rest)) = (k, v) :: removeMember key rest := by
        simp [removeMember, hk]
      rw [hrest, List.lookup_cons, List.lookup_cons, ih]

theorem removeMember_of_absent (habsent : members.lookup key = none) :
    removeMember key members = members := by
  induction members with
  | nil => rfl
  | cons m rest ih =>
    obtain ⟨k, v⟩ := m
    rw [List.lookup_cons] at habsent
    split at habsent
    · cases habsent
    · rename_i hk
      have hne : k ≠ key := by rintro rfl; simp at hk
      have hrest : removeMember key ((k, v) :: rest) = (k, v) :: removeMember key rest := by
        simp [removeMember, hne]
      rw [hrest, ih habsent]

theorem insertMember_of_present (hpresent : members.lookup key = some value) :
    insertMember key value members = members := by
  induction members with
  | nil => cases hpresent
  | cons m rest ih =>
    obtain ⟨k, v⟩ := m
    rw [List.lookup_cons] at hpresent
    unfold insertMember
    by_cases hk : k = key
    · subst hk
      simp only [beq_self_eq_true, Option.some.injEq] at hpresent
      simp [hpresent]
    · have hkey : (key == k) = false := by simpa using Ne.symm hk
      rw [hkey] at hpresent
      rw [if_neg hk, ih hpresent]

theorem insertMember_insertMember (value' : Json) :
    insertMember key value (insertMember key value' members) = insertMember key value members := by
  induction members with
  | nil => simp [insertMember]
  | cons m rest ih =>
    obtain ⟨k, v⟩ := m
    by_cases hk : k = key
    · simp [insertMember, hk]
    · simp [insertMember, hk, ih]

theorem removeMember_insertMember : removeMember key (insertMember key value members) =
    removeMember key members := by
  induction members with
  | nil => simp [insertMember, removeMember]
  | cons m rest ih =>
    obtain ⟨k, v⟩ := m
    by_cases hk : k = key
    · simp [insertMember, removeMember, hk]
    · simpa [insertMember, removeMember, hk] using ih

theorem lookup_mergeMember : (mergeMember key value members).lookup key =
    if value.isNull then none else some (mergePatch value ((members.lookup key).getD .null)) := by
  unfold mergeMember
  split
  · exact lookup_removeMember
  · exact lookup_insertMember _ _ _

theorem lookup_mergeMember_ne (hne : key' ≠ key) :
    (mergeMember key value members).lookup key' = members.lookup key' := by
  unfold mergeMember
  split
  · exact lookup_removeMember_ne hne
  · exact lookup_insertMember_ne hne _ _

theorem lookup_mergeMembers_of_notMem {patch : List (String × Json)}
    (hkey : key ∉ patch.map Prod.fst) (target : List (String × Json)) :
    (mergeMembers patch target).lookup key = target.lookup key := by
  induction patch generalizing target with
  | nil => rw [mergeMembers]
  | cons m rest ih =>
    obtain ⟨k, v⟩ := m
    obtain ⟨hne, hrest⟩ : key ≠ k ∧ key ∉ rest.map Prod.fst := by simpa using hkey
    rw [mergeMembers_cons, ih hrest, lookup_mergeMember_ne hne]

theorem lookup_mergeMembers_of_mem {patch : List (String × Json)} (hnodup : (patch.map Prod.fst).Nodup)
    (hmem : (key, value) ∈ patch) (target : List (String × Json)) :
    (mergeMembers patch target).lookup key =
      if value.isNull then none else some (mergePatch value ((target.lookup key).getD .null)) := by
  induction patch generalizing target with
  | nil => cases hmem
  | cons m rest ih =>
    obtain ⟨k, v⟩ := m
    obtain ⟨hk, hrest⟩ : k ∉ rest.map Prod.fst ∧ (rest.map Prod.fst).Nodup := by
      simpa only [List.map_cons, List.nodup_cons] using hnodup
    rw [mergeMembers_cons]
    rcases List.mem_cons.mp hmem with heq | hin
    · cases heq
      rw [lookup_mergeMembers_of_notMem hk, lookup_mergeMember]
    · have hne : key ≠ k := by
        rintro rfl
        exact hk (List.mem_map.mpr ⟨_, hin, rfl⟩)
      rw [ih hrest hin, lookup_mergeMember_ne hne]

theorem lookup_asObject (target : Json) (key : String) :
    (target.asObject?.getD []).lookup key = target.get? key := by
  cases target <;> rfl

end Members

section Idempotence

mutual

def Distinct : Json → Prop
  | .obj members => (members.map Prod.fst).Nodup ∧ DistinctMembers members
  | .null | .bool _ | .int _ | .float _ | .str _ | .arr _ => True

def DistinctMembers : List (String × Json) → Prop
  | [] => True
  | (_, value) :: rest => Distinct value ∧ DistinctMembers rest

end

mutual

theorem mergePatch_mergePatch (patch : Json) (hpatch : Distinct patch) (target : Json) :
    mergePatch patch (mergePatch patch target) = mergePatch patch target := by
  cases patch with
  | obj members =>
    rw [Distinct] at hpatch
    rw [mergePatch, mergePatch]
    exact congrArg obj (mergeMembers_mergeMembers members hpatch.1 hpatch.2 _)
  | null | bool | int | float | str | arr => simp only [mergePatch]

theorem mergeMembers_mergeMembers (patch : List (String × Json)) (hnodup : (patch.map Prod.fst).Nodup)
    (hpatch : DistinctMembers patch) (target : List (String × Json)) :
    mergeMembers patch (mergeMembers patch target) = mergeMembers patch target := by
  cases patch with
  | nil => rw [mergeMembers, mergeMembers]
  | cons m rest =>
    obtain ⟨key, value⟩ := m
    obtain ⟨hkey, hrest⟩ : key ∉ rest.map Prod.fst ∧ (rest.map Prod.fst).Nodup := by
      simpa only [List.map_cons, List.nodup_cons] using hnodup
    rw [DistinctMembers] at hpatch
    have hvalue := mergePatch_mergePatch value hpatch.1
    have hmember : mergeMember key value (mergeMembers rest (mergeMember key value target)) =
        mergeMembers rest (mergeMember key value target) := by
      have hlookup : (mergeMembers rest (mergeMember key value target)).lookup key = _ :=
        (lookup_mergeMembers_of_notMem hkey _).trans lookup_mergeMember
      rw [mergeMember]
      split
      · rename_i hnull
        rw [if_pos hnull] at hlookup
        exact removeMember_of_absent hlookup
      · rename_i hnull
        rw [if_neg hnull] at hlookup
        rw [hlookup, Option.getD_some, hvalue]
        exact insertMember_of_present hlookup
    rw [mergeMembers_cons, mergeMembers_cons, hmember]
    exact mergeMembers_mergeMembers rest hrest hpatch.2 _

end

end Idempotence

end FiveSpot.Json
