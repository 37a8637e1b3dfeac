import FiveSpot.Machine.TaintSyntax

/-!
# Admission and runtime checks

The CRD bounds `clusterName` and `killIfCommands` by a schema that counts characters, and the reconciler
checks both again, in bytes. The two are compared value by value.
-/

namespace FiveSpot.Machine

set_option autoImplicit false

open Pattern Utf8
open Kata (alphanumerics isAlphanum_iff class_ascii isEmpty_iff_toList)

section Schemas

def nameMarks : List Char := ['.', '_', '-']

/-- `[A-Za-z0-9][A-Za-z0-9._-]*`, at most 63 characters. -/
def clusterNameSchema : StringSchema :=
  ⟨1, 63, oneOf alphanumerics * (oneOf (alphanumerics ++ nameMarks)).star⟩

def killIfCommandsSchema : ListSchema := ⟨100, 1, 256⟩

/-- A name of the allowed characters and length that begins with one of the marks. -/
structure LeadingMark (s : String) : Prop where
  head : ∃ c ∈ nameMarks, s.toList.head? = some c
  chars : ∀ c ∈ s.toList, c ∈ alphanumerics ++ nameMarks
  length : s.toList.length ≤ 63

/-- Commands within the schema, one of them with more bytes than it may have characters. -/
structure WideCommand (cmds : List String) : Prop where
  count : cmds.length ≤ 100
  lengths : ∀ cmd ∈ cmds, 1 ≤ cmd.toList.length ∧ cmd.toList.length ≤ 256
  wide : ∃ cmd ∈ cmds, 256 < cmd.utf8ByteSize

end Schemas

theorem agree_iff_of_or {p q r : Prop} (hq : q ↔ p ∨ r) (hp : p → ¬ r) : (p ↔ q) ↔ ¬ r := by
  constructor
  · intro hagree hr
    exact hp (hagree.mpr (hq.mpr (.inr hr))) hr
  · intro hr
    rw [hq]
    exact (or_iff_left hr).symm

section ClusterName

variable {s : String}

theorem clusterNameChars_eq_bytes (s : String) : s.toList.all clusterNameChar =
    (asBytes s).all fun b => isAsciiAlphanumeric b || b == 45 || b == 46 || b == 95 := by
  have hbeyond : ∀ b : UInt8, 128 ≤ b.toNat →
      (isAsciiAlphanumeric b || b == 45 || b == 46 || b == 95) = false := by
    intro b hb
    have hne : ∀ k : UInt8, k.toNat < 128 → (b == k) = false := by
      intro k hk
      rw [beq_eq_false_iff_ne]
      rintro rfl
      exact absurd hb (Nat.not_le.mpr hk)
    rw [isAsciiAlphanumeric_of_le hb, hne 45 (by decide), hne 46 (by decide), hne 95 (by decide)]
    rfl
  rw [all_asBytes hbeyond]
  congr 1
  funext c
  refine (onAscii_eq (by decide) (fun c hc => ?_) c).symm
  simp only [clusterNameChar, Bool.or_eq_true, beq_iff_eq] at hc
  rcases hc with ((hc | rfl) | rfl) | rfl
  · exact toNat_lt_of_isAlphanum hc
  · decide
  · decide
  · decide

theorem clusterNameChars_iff : s.toList.all clusterNameChar = true ↔
    ∀ c ∈ s.toList, c ∈ alphanumerics ++ nameMarks := by
  simp only [List.all_eq_true, clusterNameChar, nameMarks, Bool.or_eq_true, beq_iff_eq, List.mem_append,
    List.mem_cons, List.not_mem_nil, or_false, isAlphanum_iff]
  exact forall₂_congr fun c _ => by tauto

theorem validateClusterName_eq_ok_iff : validateClusterName s = .ok () ↔
    s.toList ≠ [] ∧ s.toList.length ≤ 63 ∧ ∀ c ∈ s.toList, c ∈ alphanumerics ++ nameMarks := by
  have hascii : (∀ c ∈ s.toList, c ∈ alphanumerics ++ nameMarks) → s.utf8ByteSize = s.toList.length :=
    fun hchars => utf8ByteSize_ascii (class_ascii (by simp [nameMarks]) hchars)
  unfold validateClusterName
  split
  · rename_i hempty
    exact ⟨(nomatch ·), fun h => absurd (isEmpty_iff_toList.mp hempty) h.1⟩
  rename_i hempty
  have hne : s.toList ≠ [] := fun hnil => hempty (isEmpty_iff_toList.mpr hnil)
  split
  · rename_i hlong
    refine ⟨(nomatch ·), fun ⟨_, hlength, hchars⟩ => ?_⟩
    rw [hascii hchars] at hlong
    exact absurd hlength (Nat.not_le.mpr hlong)
  rename_i hlong
  split
  · rename_i hbad
    refine ⟨(nomatch ·), fun ⟨_, _, hchars⟩ => ?_⟩
    rw [clusterNameChars_iff.mpr hchars] at hbad
    cases hbad
  · rename_i hgood
    rw [Bool.not_eq_true', Bool.not_eq_false, clusterNameChars_iff] at hgood
    refine iff_of_true rfl ⟨hne, ?_, hgood⟩
    rw [← hascii hgood]
    exact Nat.not_lt.mp hlong

/-- Beyond the names of the schema the runtime accepts those with a mark in front. -/
theorem validateClusterName_iff_admits_or : validateClusterName s = .ok () ↔
    clusterNameSchema.Admits s ∨ LeadingMark s := by
  rw [validateClusterName_eq_ok_iff]
  constructor
  · rintro ⟨hne, hlength, hchars⟩
    obtain ⟨c, v, hcons⟩ := List.exists_cons_of_ne_nil hne
    rcases List.mem_append.mp (hchars c (by simp [hcons])) with hc | hc
    · refine .inl ⟨?_, hlength, mem_oneOf_comp.mpr ⟨c, v, hcons, hc, mem_star_oneOf.mpr ?_⟩⟩
      · rw [hcons]
        exact Nat.le_add_left 1 _
      · exact fun x hx => hchars x (by simp [hcons, hx])
    · exact .inr ⟨⟨c, hc, by rw [hcons]; rfl⟩, hchars, hlength⟩
  · rintro (hadmits | hmark)
    · obtain ⟨c, v, hcons, hc, hv⟩ := mem_oneOf_comp.mp hadmits.pattern
      refine ⟨by simp [hcons], hadmits.max, ?_⟩
      rw [hcons]
      exact List.forall_mem_cons.mpr ⟨List.mem_append_left _ hc, mem_star_oneOf.mp hv⟩
    · obtain ⟨c, _, hhead⟩ := hmark.head
      refine ⟨fun hnil => ?_, hmark.length, hmark.chars⟩
      rw [hnil] at hhead
      cases hhead

theorem not_leadingMark_of_admits (h : clusterNameSchema.Admits s) : ¬ LeadingMark s := by
  intro hmark
  obtain ⟨c, v, hcons, hc, _⟩ := mem_oneOf_comp.mp h.pattern
  obtain ⟨c', hmem, hhead⟩ := hmark.head
  rw [hcons] at hhead
  obtain rfl := Option.some.inj hhead
  have hletter := isAlphanum_iff.mpr hc
  simp only [nameMarks, List.mem_cons, List.not_mem_nil, or_false] at hmem
  rcases hmem with rfl | rfl | rfl <;> exact absurd hletter (by decide)

end ClusterName

section KillIfCommands

variable {cmds : List String}

theorem validateKillIfCommand_eq_ok_iff {idx : Nat} {cmd : String} :
    validateKillIfCommand idx cmd = .ok () ↔ 1 ≤ cmd.toList.length ∧ cmd.utf8ByteSize ≤ 256 := by
  have hempty : cmd.isEmpty = true ↔ ¬ 1 ≤ cmd.toList.length := by
    rw [isEmpty_iff_toList, Nat.not_le, Nat.lt_one_iff, List.length_eq_zero_iff]
  unfold validateKillIfCommand
  split
  · rename_i h
    exact ⟨(nomatch ·), fun hok => absurd hok.1 (hempty.mp h)⟩
  rename_i hne
  split
  · rename_i hlong
    exact ⟨(nomatch ·), fun hok => absurd hok.2 (Nat.not_le.mpr hlong)⟩
  · rename_i hfit
    refine iff_of_true rfl ⟨?_, Nat.not_lt.mp hfit⟩
    rw [hempty, Decidable.not_not] at hne
    exact hne

theorem validateKillIfCommandsFrom_eq_ok_iff {idx : Nat} :
    validateKillIfCommandsFrom idx cmds = .ok () ↔
      ∀ cmd ∈ cmds, 1 ≤ cmd.toList.length ∧ cmd.utf8ByteSize ≤ 256 := by
  induction cmds generalizing idx with
  | nil => exact iff_of_true rfl (by simp)
  | cons cmd cmds ih =>
    rw [validateKillIfCommandsFrom, except_bind_eq_ok, List.forall_mem_cons]
    constructor
    · rintro ⟨_, hcmd, hcmds⟩
      exact ⟨validateKillIfCommand_eq_ok_iff.mp hcmd, ih.mp hcmds⟩
    · rintro ⟨hcmd, hcmds⟩
      exact ⟨(), validateKillIfCommand_eq_ok_iff.mpr hcmd, ih.mpr hcmds⟩

theorem validateKillIfCommands_eq_ok_iff : validateKillIfCommands (some cmds) = .ok () ↔
    cmds.length ≤ 100 ∧ ∀ cmd ∈ cmds, 1 ≤ cmd.toList.length ∧ cmd.utf8ByteSize ≤ 256 := by
  unfold validateKillIfCommands
  dsimp only
  split
  · rename_i hmany
    exact ⟨(nomatch ·), fun hok => absurd hok.1 (Nat.not_le.mpr hmany)⟩
  · rename_i hfew
    rw [validateKillIfCommandsFrom_eq_ok_iff]
    exact (and_iff_right (Nat.not_lt.mp hfew)).symm

/-- Beyond what the runtime accepts the schema admits commands with too many bytes. -/
theorem killIfCommandsSchema_admits_iff : killIfCommandsSchema.Admits cmds ↔
    validateKillIfCommands (some cmds) = .ok () ∨ WideCommand cmds := by
  rw [validateKillIfCommands_eq_ok_iff]
  constructor
  · rintro ⟨hcount, hmin, hmax⟩
    by_cases hwide : ∃ cmd ∈ cmds, 256 < cmd.utf8ByteSize
    · exact .inr ⟨hcount, fun cmd hcmd => ⟨hmin cmd hcmd, hmax cmd hcmd⟩, hwide⟩
    · refine .inl ⟨hcount, fun cmd hcmd => ⟨hmin cmd hcmd, Nat.not_lt.mp fun hlt => ?_⟩⟩
      exact hwide ⟨cmd, hcmd, hlt⟩
  · rintro (⟨hcount, hall⟩ | hwide)
    · refine ⟨hcount, fun cmd hcmd => (hall cmd hcmd).1, fun cmd hcmd => ?_⟩
      exact (length_le_utf8ByteSize cmd).trans (hall cmd hcmd).2
    · exact ⟨hwide.count, fun cmd hcmd => (hwide.lengths cmd hcmd).1,
        fun cmd hcmd => (hwide.lengths cmd hcmd).2⟩

theorem not_wideCommand_of_ok (h : validateKillIfCommands (some cmds) = .ok ()) : ¬ WideCommand cmds := by
  intro hwide
  obtain ⟨cmd, hcmd, hlt⟩ := hwide.wide
  exact Nat.not_le.mpr hlt ((validateKillIfCommands_eq_ok_iff.mp h).2 cmd hcmd).2

end KillIfCommands

/--
The schema and the runtime agree on a cluster name exactly if it is none that begins with a mark, and on a
list of commands exactly if none of the commands has more bytes than characters are allowed.
-/
theorem schema_agrees_iff (clusterName : String) (killIfCommands : List String) :
    ((clusterNameSchema.Admits clusterName ↔ validateClusterName clusterName = .ok ()) ↔
        ¬ LeadingMark clusterName) ∧
      ((killIfCommandsSchema.Admits killIfCommands ↔
          validateKillIfCommands (some killIfCommands) = .ok ()) ↔ ¬ WideCommand killIfCommands) := by
  refine ⟨agree_iff_of_or validateClusterName_iff_admits_or not_leadingMark_of_admits, ?_⟩
  rw [iff_comm (a := killIfCommandsSchema.Admits killIfCommands)]
  exact agree_iff_of_or killIfCommandsSchema_admits_iff not_wideCommand_of_ok

/-- Passes at runtime and is not admitted: a hyphen in front. Admitted and stuck: 129 letters of two bytes
each. -/
theorem schema_and_runtime_differ :
    (¬ clusterNameSchema.Admits "-east" ∧ validateClusterName "-east" = .ok ()) ∧
      (killIfCommandsSchema.Admits [.ofList (List.replicate 129 'é')] ∧
        validateKillIfCommands (some [.ofList (List.replicate 129 'é')]) ≠ .ok ()) := by
  have hmark : LeadingMark "-east" :=
    ⟨⟨'-', by simp [nameMarks], rfl⟩, clusterNameChars_iff.mp (by decide), by decide⟩
  have hlength : (String.ofList (List.replicate 129 'é')).toList.length = 129 := by
    rw [String.toList_ofList, List.length_replicate]
  refine ⟨⟨fun hadmits => not_leadingMark_of_admits hadmits hmark,
    validateClusterName_iff_admits_or.mpr (.inr hmark)⟩, ⟨by decide, ?_, ?_⟩, fun hok => ?_⟩
  · rw [List.forall_mem_singleton, hlength]
    decide
  · rw [List.forall_mem_singleton, hlength]
    decide
  · have hbytes := ((validateKillIfCommands_eq_ok_iff.mp hok).2 _ List.mem_cons_self).2
    have hwidth : (String.utf8EncodeChar 'é').length = 2 := rfl
    rw [utf8ByteSize_eq, asBytes, String.toList_ofList, List.length_flatMap, List.map_replicate, hwidth,
      List.sum_replicate_nat] at hbytes
    exact absurd hbytes (by decide)

end FiveSpot.Machine
