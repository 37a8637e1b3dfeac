import Mathlib.Tactic.Common

/-!
# JSON values and merge patches

An object is the list of its members. A merge patch treats each member of an object on its own: it
leaves it, sets it or removes it.
-/

namespace FiveSpot

set_option autoImplicit false

inductive Json where
  | null
  | bool (b : Bool)
  | int (n : Int)
  /-- A number that is not an integer, by its text. -/
  | float (text : String)
  | str (s : String)
  | arr (items : List Json)
  | obj (members : List (String × Json))

namespace Json

def insertMember (key : String) (value : Json) : List (String × Json) → List (String × Json)
  | [] => [(key, value)]
  | (k, v) :: rest => if k = key then (key, value) :: rest else (k, v) :: insertMember key value rest

def get? (key : String) : Json → Option Json
  | .obj members => members.lookup key
  | _ => none

def asStr? : Json → Option String
  | .str s => some s
  | _ => none

def asBool? : Json → Option Bool
  | .bool b => some b
  | _ => none

abbrev FitsI64 (n : Int) : Prop := -9223372036854775808 ≤ n ∧ n ≤ 9223372036854775807

def asI64? : Json → Option Int
  | .int n => if FitsI64 n then some n else none
  | _ => none

def asObject? : Json → Option (List (String × Json))
  | .obj members => some members
  | _ => none

def asArray? : Json → Option (List Json)
  | .arr items => some items
  | _ => none

def stringMap (json : Option Json) : List (String × String) :=
  match json.bind asObject? with
  | some members => members.filterMap fun (k, v) => v.asStr?.map fun s => (k, s)
  | none => []

theorem lookup_stringMap {json : Option Json} {key value : String}
    (h : json.bind (get? key) = some (.str value)) : (stringMap json).lookup key = some value := by
  obtain ⟨json, rfl, hget⟩ := Option.bind_eq_some_iff.mp h
  cases json with
  | obj members =>
    simp only [get?] at hget
    simp only [stringMap, Option.bind_some, asObject?]
    clear h
    induction members with
    | nil => cases hget
    | cons m rest ih =>
      obtain ⟨k, v⟩ := m
      rw [List.lookup_cons] at hget
      split at hget
      · rename_i hkey
        cases hget
        simp [asStr?, List.lookup_cons, hkey]
      · rename_i hkey
        cases v with
        | str s => simpa [asStr?, List.lookup_cons, hkey] using ih hget
        | _ => simpa [asStr?] using ih hget
  | _ => cases hget

theorem lookup_insertMember (key : String) (value : Json) (members : List (String × Json)) :
    (insertMember key value members).lookup key = some value := by
  induction members with
  | nil => simp [insertMember]
  | cons m rest ih =>
    obtain ⟨k, v⟩ := m
    unfold insertMember
    split
    · simp
    · rename_i hne
      have hkey : (key == k) = false := by simpa using fun h => hne h.symm
      simp [List.lookup_cons, hkey, ih]

theorem lookup_insertMember_ne {key key' : String} (hne : key' ≠ key) (value : Json)
    (members : List (String × Json)) :
    (insertMember key value members).lookup key' = members.lookup key' := by
  have hkey : (key' == key) = false := by simpa using hne
  induction members with
  | nil => simp [insertMember, List.lookup_cons, hkey]
  | cons m rest ih =>
    obtain ⟨k, v⟩ := m
    unfold insertMember
    split
    · rename_i heq
      subst heq
      simp [List.lookup_cons, hkey]
    · simp [List.lookup_cons, ih]

end Json

inductive MergeField (α : Type) where
  | keep
  | clear
  | set (a : α)

namespace MergeField

variable {α : Type}

def apply : MergeField α → Option α → Option α
  | .keep, old => old
  | .clear, _ => none
  | .set a, _ => some a

/-- A member that is left out of the patch when there is no value for it. -/
def ofOption : Option α → MergeField α
  | some a => .set a
  | none => .keep

/-- A member that is written as an explicit null when there is no value for it. -/
def orNull : Option α → MergeField α
  | some a => .set a
  | none => .clear

@[simp] theorem apply_keep (old : Option α) : MergeField.keep.apply old = old := rfl

@[simp] theorem apply_clear (old : Option α) : MergeField.clear.apply old = none := rfl

@[simp] theorem apply_set (a : α) (old : Option α) : (MergeField.set a).apply old = some a := rfl

@[simp] theorem apply_orNull (new old : Option α) : (orNull new).apply old = new := by
  cases new <;> rfl

theorem orNull_eq_set {new : Option α} {a : α} : orNull new = .set a ↔ new = some a := by
  cases new <;> simp [orNull]

@[simp] theorem apply_ofOption (new old : Option α) : (ofOption new).apply old = new.or old := by
  cases new <;> rfl

end MergeField

end FiveSpot
