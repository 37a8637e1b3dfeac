import FiveSpot.Data.Utf8
import FiveSpot.Machine.Validation
import Mathlib.Data.Fintype.EquivFin

/-!
# Which process handles a resource

Several controller processes share the resources: each hashes a resource to an instance and handles
it if that instance is its own. The id that clap reads at start-up goes into the context;
`should_process_resource` reads the environment variable again and never sees the flag.
-/

namespace FiveSpot.Machine

set_option autoImplicit false

section Startup

/-- What decides the instance id of one process: `--instance-id` and `OPERATOR_INSTANCE_ID`. -/
structure Launch where
  instanceIdFlag : Option String
  operatorInstanceId : Option String

def defaultInstanceId : Nat := 0

/-- How clap reads an argument that is a `u32`. -/
structure ClapU32 where
  parse : String → Option Nat
  parse_zero : parse "0" = some 0
  /-- A number it accepts is the one that `str::parse` finds, or zero where that finds none. -/
  parseU32_of_parse : ∀ {s i}, parse s = some i → (Text.parseU32 s).getD defaultInstanceId = i

namespace Launch

/-- `Args::instance_id`; a process whose id does not parse does not start. -/
def instanceId (clap : ClapU32) (l : Launch) : Option Nat :=
  clap.parse ((l.instanceIdFlag.or l.operatorInstanceId).getD "0")

/-- `current_instance`, the id that assignments are compared with. -/
def currentInstance (l : Launch) : Nat :=
  (l.operatorInstanceId.bind Text.parseU32).getD defaultInstanceId

end Launch

theorem Launch.currentInstance_of_unflagged {clap : ClapU32} {l : Launch} {i : Nat}
    (hflag : l.instanceIdFlag = none) (hid : l.instanceId clap = some i) : l.currentInstance = i := by
  unfold instanceId at hid
  unfold currentInstance
  cases henv : l.operatorInstanceId with
  | none =>
    rw [hflag, henv, Option.none_or, Option.getD_none, clap.parse_zero] at hid
    exact Option.some.inj hid
  | some s =>
    simp only [hflag, henv, Option.none_or, Option.getD_some] at hid
    exact clap.parseU32_of_parse hid

end Startup

section Hash

open Utf8 (Bytes asBytes)

def hashByte (hash : Nat) (byte : UInt8) : Nat := (hash * 31 + byte.toNat) % UInt64.size

def resourceHash (name ns : String) (priority : Nat) : Nat :=
  ((asBytes (ns ++ "/" ++ name)).foldl hashByte 0 + priority * 1000) % UInt64.size

theorem shouldProcessResource_iff {name ns : String} {priority count id : Nat} (hcount : 1 < count) :
    shouldProcessResource name ns priority count id = true ↔
      resourceHash name ns priority % count = id := by
  have hnot : ¬ count ≤ 1 := Nat.not_le.mpr hcount
  simp only [shouldProcessResource, if_neg hnot, Utf8.toList_toUTF8, beq_iff_eq]
  rfl

/-- `k` characters that spell `v` in base 31, most significant first. -/
def spell : Nat → Nat → List Char
  | 0, _ => []
  | k + 1, v => spell k (v / 31) ++ [Char.ofNat (v % 31)]

def spellings : Nat → Nat
  | 0 => 1
  | k + 1 => spellings k * 31

theorem utf8EncodeChar_ofNat {v : Nat} (hv : v < 31) :
    String.utf8EncodeChar (Char.ofNat v) = [UInt8.ofNat v] := by
  have hall : ∀ w : Fin 31, String.utf8EncodeChar (Char.ofNat w) = [UInt8.ofNat w] := by decide
  exact hall ⟨v, hv⟩

theorem foldl_spell (k : Nat) {h v : Nat} (hv : v < spellings k)
    (hsize : (h + 1) * spellings k ≤ UInt64.size) :
    ((spell k v).flatMap String.utf8EncodeChar).foldl hashByte h = h * spellings k + v := by
  induction k generalizing v with
  | zero =>
    obtain rfl : v = 0 := Nat.lt_one_iff.mp hv
    exact (Nat.mul_one h).symm
  | succ k ih =>
    have hsucc : spellings (k + 1) = spellings k * 31 := rfl
    have hroom : (h + 1) * spellings (k + 1) = h * spellings k * 31 + spellings k * 31 := by
      rw [hsucc, Nat.add_mul, Nat.one_mul, Nat.mul_assoc]
    have hhead := ih (v := v / 31) (by omega) (by rw [Nat.add_mul]; omega)
    have hlast : v % 31 < 31 := Nat.mod_lt v (by decide)
    have hbyte : (UInt8.ofNat (v % 31)).toNat = v % 31 :=
      Utf8.toNat_ofNat_of_lt (Nat.lt_trans hlast (by decide))
    rw [spell, List.flatMap_append, List.foldl_append, hhead, List.flatMap_singleton,
      utf8EncodeChar_ofNat hlast, List.foldl_cons, List.foldl_nil, hashByte, hbyte, hsucc,
      ← Nat.mul_assoc, Nat.mod_eq_of_lt (by omega)]
    omega

theorem exists_resource {n k : Nat} (hk : k < n) (hn : n < UInt32.size) :
    ∃ name, resourceHash name "" 0 % n = k := by
  -- the separator alone hashes to 47, and seven characters follow it
  have hbase : 47 * spellings 7 + spellings 7 ≤ UInt64.size := by decide
  have hroom : UInt32.size ≤ spellings 7 := by decide
  let v := (k + (n - 47 * spellings 7 % n)) % n
  have hv : v < n := Nat.mod_lt _ (by omega)
  refine ⟨.ofList (spell 7 v), ?_⟩
  have hhash : resourceHash (.ofList (spell 7 v)) "" 0 = 47 * spellings 7 + v := by
    have hbytes : asBytes ("" ++ "/" ++ String.ofList (spell 7 v)) =
        47 :: (spell 7 v).flatMap String.utf8EncodeChar := by
      have hslash : String.utf8EncodeChar '/' = [47] := by decide
      simp [asBytes, hslash]
    have hfirst : hashByte 0 47 = 47 := by decide
    rw [resourceHash, hbytes, List.foldl_cons, hfirst, foldl_spell 7 (by omega) (by omega)]
    exact Nat.mod_eq_of_lt (by omega)
  have hmod : 47 * spellings 7 % n < n := Nat.mod_lt _ (by omega)
  rw [hhash, Nat.add_mod_mod, ← Nat.mod_add_mod,
    show 47 * spellings 7 % n + (k + (n - 47 * spellings 7 % n)) = k + n by omega, Nat.add_mod_right]
  exact Nat.mod_eq_of_lt hk

end Hash

theorem existsUnique_of_covering {n : Nat} {seen : Fin n → Nat}
    (hcover : ∀ k : Fin n, ∃ i, seen i = k) (k : Fin n) : ∃! i, seen i = k := by
  choose who hwho using hcover
  have hinj : Function.Injective who := by
    intro a b hab
    have hval : (a : Nat) = b := by rw [← hwho a, ← hwho b, hab]
    exact Fin.ext hval
  have hsurj : Function.Surjective who := Finite.injective_iff_surjective.mp hinj
  refine ⟨who k, hwho k, ?_⟩
  intro i hi
  obtain ⟨a, rfl⟩ := hsurj i
  have hval : (a : Nat) = k := by rw [← hwho a, hi]
  rw [Fin.ext hval]

/--
Processes started with the ids `0` to `n - 1` divide the resources between them exactly when every id
given by a flag is also seen in the environment of some process.
-/
theorem one_handler_iff (clap : ClapU32) (n : Nat) (fleet : Fin n → Launch) (hn : 1 ≤ n)
    (hcount : n < UInt32.size) (hids : ∀ i, (fleet i).instanceId clap = some i.val) :
    (∀ ns name priority, ∃! i,
        shouldProcessResource name ns priority n (fleet i).currentInstance = true) ↔
      n = 1 ∨ ∀ i, (fleet i).instanceIdFlag.isSome = true → ∃ j, (fleet j).currentInstance = i := by
  constructor
  · intro hone
    by_cases h1 : n = 1
    · exact .inl h1
    · refine .inr fun i _ => ?_
      have hmany : 1 < n := by omega
      obtain ⟨name, hname⟩ := exists_resource i.isLt hcount
      obtain ⟨j, hj, -⟩ := hone "" name 0
      have hseen : resourceHash name "" 0 % n = (fleet j).currentInstance :=
        (shouldProcessResource_iff hmany).mp hj
      exact ⟨j, by rw [← hseen, hname]⟩
  · intro hwhen ns name priority
    by_cases h1 : n = 1
    · subst h1
      refine ⟨0, rfl, fun i _ => ?_⟩
      exact Subsingleton.elim i 0
    · have hmany : 1 < n := by omega
      have hflags := hwhen.resolve_left h1
      have hcover : ∀ k : Fin n, ∃ i, (fleet i).currentInstance = k := by
        intro k
        cases hflag : (fleet k).instanceIdFlag with
        | some s => exact hflags k (by simp [hflag])
        | none => exact ⟨k, Launch.currentInstance_of_unflagged hflag (hids k)⟩
      have hlt : resourceHash name ns priority % n < n := Nat.mod_lt _ (by omega)
      obtain ⟨i, hi, huniq⟩ := existsUnique_of_covering hcover ⟨_, hlt⟩
      refine ⟨i, (shouldProcessResource_iff hmany).mpr hi.symm, ?_⟩
      intro j hj
      exact huniq j ((shouldProcessResource_iff hmany).mp hj).symm

section Sample

/-- The text as an `i64`, then the range. -/
def clapU32 (s : String) : Option Nat :=
  (Text.parseI64 s).bind fun n => if 0 ≤ n ∧ n < UInt32.size then some n.toNat else none

theorem parseU32_of_clapU32 {s : String} {i : Nat} (h : clapU32 s = some i) :
    (Text.parseU32 s).getD defaultInstanceId = i := by
  obtain ⟨n, hparse, hrange⟩ := Option.bind_eq_some_iff.mp h
  obtain ⟨⟨hlow, hhigh⟩, rfl⟩ : (0 ≤ n ∧ n < UInt32.size) ∧ n.toNat = i := by
    split at hrange
    · exact ⟨‹_›, Option.some.inj hrange⟩
    · cases hrange
  unfold Text.parseI64 at hparse
  split at hparse
  · rename_i digits hs
    have hnone : Text.parseU32 s = none := by
      have hminus : Char.isDigit '-' = false := rfl
      simp [Text.parseU32, Text.parseU64, hs, hminus]
    have hzero : n = 0 := by
      split at hparse
      · cases hparse
      · split at hparse
        · have hneg : -(Text.natOfDigits digits : Int) = n := Option.some.inj hparse
          omega
        · cases hparse
    simp [hnone, hzero, defaultInstanceId]
  · obtain ⟨m, hm, hsome⟩ := Option.bind_eq_some_iff.mp hparse
    obtain rfl : (m : Int) = n := by
      split at hsome
      · exact Option.some.inj hsome
      · cases hsome
    have hlt : m < UInt32.size := by omega
    have hsame : Text.parseU32 s = some m := by
      rw [Text.parseU32, hm]
      exact if_pos (decide_eq_true hlt)
    rw [hsame]
    rfl

def sampleClap : ClapU32 := ⟨clapU32, by decide +kernel, parseU32_of_clapU32⟩

def sampleFleet (flagged : Bool) (i : Fin 2) : Launch :=
  let id := if i = 0 then "0" else "1"
  if flagged then ⟨some id, none⟩ else ⟨none, some id⟩

theorem one_handler_sample :
    (∀ i, (sampleFleet false i).instanceId sampleClap = some i.val) ∧
      ∀ ns name priority, ∃! i,
        shouldProcessResource name ns priority 2 (sampleFleet false i).currentInstance = true := by
  have hids : ∀ i, (sampleFleet false i).instanceId sampleClap = some i.val := by decide +kernel
  refine ⟨hids, (one_handler_iff sampleClap 2 (sampleFleet false) (by decide) (by decide) hids).mpr
    (.inr ?_)⟩
  decide

/-- Started through the flag, both handle one resource and none handles another. -/
theorem flagged_fleet_overlaps :
    (∀ i, (sampleFleet true i).instanceId sampleClap = some i.val) ∧
      (∀ i, shouldProcessResource "a" "default" 50 2 (sampleFleet true i).currentInstance = false) ∧
      ∀ i, shouldProcessResource "b" "default" 50 2 (sampleFleet true i).currentInstance = true := by
  decide +kernel

end Sample

end FiveSpot.Machine
