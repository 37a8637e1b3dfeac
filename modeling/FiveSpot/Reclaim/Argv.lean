import FiveSpot.Reclaim.Matching

/-!
# Parts of a command line

The agent looks for the patterns of `match_argv_substrings` in a text that it makes of the command
line byte by byte, while a pattern is a text of its own. The search is one for the bytes of the
pattern only where the two readings of bytes agree.
-/

namespace FiveSpot.Reclaim

set_option autoImplicit false

open Utf8 (Bytes asBytes asChar)

section Search

variable {pattern : String} {raw : Bytes}

def spaced (raw : Bytes) : Bytes := raw.map fun b => if b = 0 then 32 else b

theorem toList_cmdlineText (raw : Bytes) : (cmdlineText raw).toList = (spaced raw).map asChar := by
  rw [cmdlineText, String.toList_ofList, spaced, List.map_map]
  refine List.map_congr_left fun b _ => ?_
  by_cases hb : b = 0
  · rw [if_pos hb, Function.comp_apply, if_pos hb]
    rfl
  · rw [if_neg hb, Function.comp_apply, if_neg hb]
    rfl

theorem contains_cmdlineText_iff :
    Text.contains pattern (cmdlineText raw) = true ↔ pattern.toList <:+: (spaced raw).map asChar := by
  rw [Text.contains, Text.containsChars_iff, toList_cmdlineText]

theorem zero_notMem_spaced (raw : Bytes) : 0 ∉ spaced raw := by
  intro h
  obtain ⟨b, -, hb⟩ := List.mem_map.mp h
  split at hb
  · cases hb
  · contradiction

theorem spaced_of_notMem (h : 0 ∉ raw) : spaced raw = raw := by
  refine (List.map_congr_left fun b hb => ?_).trans (List.map_id raw)
  refine if_neg ?_
  rintro rfl
  exact h hb

/-- The text is searched for the characters as the bytes are for theirs. -/
def Agrees (pattern : String) (raw : Bytes) : Prop :=
  Text.contains pattern (cmdlineText raw) = true ↔ asBytes pattern <:+: spaced raw

theorem agrees_of_ascii (h : ∀ c ∈ pattern.toList, c.toNat < 128) : Agrees pattern raw := by
  rw [Agrees, contains_cmdlineText_iff, ← Utf8.map_asChar_asBytes h, Utf8.map_asChar_infix_iff]

theorem agrees_of_nul (h : ∃ c ∈ pattern.toList, c.toNat = 0) : Agrees pattern raw := by
  rw [Agrees, contains_cmdlineText_iff]
  obtain ⟨c, hc, hnul⟩ := h
  constructor
  · intro hfound
    obtain ⟨b, hb, rfl⟩ := List.mem_map.mp (hfound.subset hc)
    have hzero : b = 0 := UInt8.toNat_inj.mp ((Utf8.toNat_asChar b).symm.trans hnul)
    exact absurd (hzero ▸ hb) (zero_notMem_spaced raw)
  · intro hfound
    have hzero : 0 ∈ asBytes pattern := Utf8.zero_mem_asBytes_iff.mpr ⟨c, hc, hnul⟩
    exact absurd (hfound.subset hzero) (zero_notMem_spaced raw)

/-- The characters by their numbers, if these fit into bytes. -/
def narrow (s : String) : Bytes := s.toList.map fun c => .ofNat c.toNat

theorem map_asChar_narrow (h : ∀ c ∈ pattern.toList, c.toNat < 256) :
    (narrow pattern).map asChar = pattern.toList := by
  rw [narrow, List.map_map]
  exact (List.map_congr_left fun c hc => Utf8.asChar_ofNat (h c hc)).trans (List.map_id _)

theorem zero_notMem_narrow (h : ∀ c ∈ pattern.toList, c.toNat < 256)
    (hnul : ¬ ∃ c ∈ pattern.toList, c.toNat = 0) : 0 ∉ narrow pattern := by
  intro hzero
  obtain ⟨c, hc, heq⟩ := List.mem_map.mp hzero
  refine hnul ⟨c, hc, ?_⟩
  rw [← Utf8.toNat_ofNat_of_lt (h c hc), heq]
  rfl

/--
Beyond ASCII the searches differ somewhere: if all characters fit into bytes, on these bytes, where
only the text has the pattern; if one does not, on the pattern's own bytes, where only the bytes do.
-/
theorem exists_not_agrees (hwide : ∃ c ∈ pattern.toList, 128 ≤ c.toNat)
    (hnul : ¬ ∃ c ∈ pattern.toList, c.toNat = 0) : ∃ raw, ¬ Agrees pattern raw := by
  obtain ⟨c, hc, hle⟩ := hwide
  by_cases hnarrow : ∀ c ∈ pattern.toList, c.toNat < 256
  · refine ⟨narrow pattern, fun hagrees => ?_⟩
    rw [Agrees, contains_cmdlineText_iff, spaced_of_notMem (zero_notMem_narrow hnarrow hnul),
      map_asChar_narrow hnarrow] at hagrees
    have hlength := (hagrees.mp (List.infix_refl _)).length_le
    have hlonger := Utf8.length_lt_length_asBytes hc hle
    rw [narrow, List.length_map] at hlength
    omega
  · obtain ⟨c, hc, hfar⟩ : ∃ c ∈ pattern.toList, 256 ≤ c.toNat := by
      simpa only [not_forall, Nat.not_lt, exists_prop] using hnarrow
    refine ⟨asBytes pattern, fun hagrees => ?_⟩
    rw [Agrees, contains_cmdlineText_iff,
      spaced_of_notMem (mt Utf8.zero_mem_asBytes_iff.mp hnul)] at hagrees
    obtain ⟨b, -, rfl⟩ := List.mem_map.mp ((hagrees.mpr (List.infix_refl _)).subset hc)
    have hbyte := b.toNat_lt
    rw [Utf8.toNat_asChar] at hfar
    omega

theorem agrees_everywhere_iff : (∀ raw, Agrees pattern raw) ↔
    (∀ c ∈ pattern.toList, c.toNat < 128) ∨ ∃ c ∈ pattern.toList, c.toNat = 0 := by
  constructor
  · intro hagrees
    by_contra hneither
    obtain ⟨hascii, hnul⟩ := not_or.mp hneither
    have hwide : ∃ c ∈ pattern.toList, 128 ≤ c.toNat := by
      simpa only [not_forall, Nat.not_lt, exists_prop] using hascii
    obtain ⟨raw, hraw⟩ := exists_not_agrees hwide hnul
    exact hraw (hagrees raw)
  · rintro (hascii | hnul) raw
    · exact agrees_of_ascii hascii
    · exact agrees_of_nul hnul

end Search

section Pattern

variable {p : Process} {pid : Nat} {config : Config} {pattern : String} {earlier later : List String}

theorem find?_eq_some_iff {test : String → Bool} (hearlier : earlier.find? test = none) :
    (earlier ++ pattern :: later).find? test = some pattern ↔ test pattern = true := by
  rw [List.find?_append, hearlier, Option.none_or]
  constructor
  · exact List.find?_some
  · exact List.find?_cons_of_pos

theorem matchPid_argv_iff (hsubstrings : config.matchArgvSubstrings = earlier ++ pattern :: later)
    (hearlier : matchPid p pid { config with matchArgvSubstrings := earlier } = none) :
    matchPid p pid config = some ⟨pid, pattern, .argv⟩ ↔
      ∃ raw, p.cmdline = some raw ∧ Text.contains pattern (cmdlineText raw) = true := by
  unfold matchPid at hearlier ⊢
  split at hearlier
  · cases hearlier
  rename_i hname
  dsimp only at hname
  split at hearlier
  · cases hearlier
  rename_i hnone
  dsimp only at hnone
  rw [hname, hsubstrings]
  cases hcmdline : p.cmdline with
  | none => simp
  | some raw =>
    rw [hcmdline, Option.bind_some] at hnone
    have hfirst : (earlier ++ pattern :: later).find? _ = some pattern ↔ _ := find?_eq_some_iff hnone
    simp only [Option.bind_some, Option.some.injEq, exists_eq_left', ← hfirst]
    split
    · rename_i found hfound
      simp [hfound]
    · rename_i hfound
      simp [hfound]

/--
In every process, behind names and patterns that do not match, the pattern is reported if and only if
its bytes are in those of the command line with NUL read as a space.
-/
def ByteExact (pattern : String) : Prop :=
  ∀ (p : Process) (pid : Nat) (config : Config) (earlier later : List String),
    config.matchArgvSubstrings = earlier ++ pattern :: later →
    matchPid p pid { config with matchArgvSubstrings := earlier } = none →
      (matchPid p pid config = some ⟨pid, pattern, .argv⟩ ↔ p.Runs pattern)

/-- The patterns that are searched for byte by byte: those in ASCII, and those that match nothing. -/
theorem byteExact_iff (pattern : String) : ByteExact pattern ↔
    (∀ c ∈ pattern.toList, c.toNat < 128) ∨ ∃ c ∈ pattern.toList, c.toNat = 0 := by
  rw [← agrees_everywhere_iff]
  constructor
  · intro hexact raw
    have hsubstrings : (⟨[], [pattern], 1⟩ : Config).matchArgvSubstrings = [] ++ pattern :: [] := rfl
    have hpid := hexact ⟨none, some raw⟩ 0 _ [] [] hsubstrings rfl
    rw [matchPid_argv_iff hsubstrings rfl] at hpid
    simp only [Process.Runs, Option.some.injEq, exists_eq_left'] at hpid
    exact hpid
  · intro hagrees p pid config earlier later hsubstrings hearlier
    rw [matchPid_argv_iff hsubstrings hearlier]
    exact exists_congr fun raw => and_congr_right fun _ => hagrees raw

def accentedConfig : Config := ⟨[], ["café"], defaultPollIntervalMs⟩

def utf8Process : Process := ⟨some (asBytes "sh\n"), some (asBytes "sh" ++ [0] ++ asBytes "café")⟩

def latinProcess : Process := ⟨some (asBytes "sh\n"), some (asBytes "sh" ++ [0] ++ narrow "café")⟩

instance (p : Process) (pattern : String) : Decidable (p.Runs pattern) :=
  match h : p.cmdline with
  | none => isFalse (by simp [Process.Runs, h])
  | some raw => decidable_of_iff (asBytes pattern <:+: spaced raw) (by simp [Process.Runs, h, spaced])

/-- The pattern is in the bytes and not found, and found where the bytes do not have it. -/
theorem accented_pattern_mismatched :
    (utf8Process.Runs "café" ∧ matchPid utf8Process 7 accentedConfig = none) ∧
      ¬ latinProcess.Runs "café" ∧
        matchPid latinProcess 7 accentedConfig = some ⟨7, "café", .argv⟩ := by
  decide +kernel

end Pattern

end FiveSpot.Reclaim
