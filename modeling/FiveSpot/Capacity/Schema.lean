import FiveSpot.Data.Pattern
import FiveSpot.Capacity.Path

/-!
# The schemas of the capacity paths

`capacity_field_schema` and `capacity_drained_path_schema` of `crd.rs`: what the API server admits as
`spec.capacity.field` and `spec.handback.drainedPath`. The checks of the controller split the text and
look at each segment; they accept the same texts.
-/

namespace FiveSpot.Capacity

set_option autoImplicit false

open Pattern Text

/-- `[a-z][a-zA-Z0-9]*`. -/
def segmentPattern : RegularExpression Char :=
  oneOf (charRange 'a' 'z') *
    (oneOf (charRange 'a' 'z' ++ charRange 'A' 'Z' ++ charRange '0' '9')).star

/-- `^[a-z][a-zA-Z0-9]*(\.[a-z][a-zA-Z0-9]*){0,7}$`. -/
def capacityPathPattern : RegularExpression Char := separatedUpTo 7 '.' segmentPattern

/-- `^[a-z][a-zA-Z0-9]*(\.[a-z][a-zA-Z0-9]*){0,6}$`. -/
def capacityFieldPattern : RegularExpression Char := separatedUpTo 6 '.' segmentPattern

def capacityFieldSchema : StringSchema := ⟨1, 253, capacityFieldPattern⟩

def capacityDrainedPathSchema : StringSchema := ⟨8, 253, capacityPathPattern⟩

/-- The rule `!self.matches('^(spec|metadata|status)([.]|$)')`. -/
def AvoidsReservedRoots (field : String) : Prop :=
  ∀ root ∈ capacityFieldReservedRoots,
    field.toList ≠ root.toList ∧ ¬ (root.toList ++ ['.']) <+: field.toList

section Segments

variable {s : String} {w : List Char}

theorem isCamelCaseField_iff : isCamelCaseField s = true ↔ s.toList ∈ segmentPattern.matches' := by
  have hclass (c : Char) : c ∈ charRange 'a' 'z' ++ charRange 'A' 'Z' ++ charRange '0' '9' ↔
      c.isAlphanum = true := by
    simp only [isAlphanum_eq, Bool.or_eq_true, List.mem_append, isUpper_iff, isLower_iff, isDigit_iff]
    tauto
  rw [segmentPattern, mem_oneOf_comp, isCamelCaseField]
  cases s.toList with
  | nil => simp
  | cons first rest =>
    simp only [Bool.and_eq_true, List.all_eq_true, isLower_iff, List.cons.injEq, mem_star_oneOf, hclass]
    constructor
    · rintro ⟨hfirst, hrest⟩
      exact ⟨first, rest, ⟨rfl, rfl⟩, hfirst, hrest⟩
    · rintro ⟨_, _, ⟨rfl, rfl⟩, hfirst, hrest⟩
      exact ⟨hfirst, hrest⟩

theorem isAlphanum_of_segment (h : w ∈ segmentPattern.matches') : ∀ c ∈ w, c.isAlphanum = true := by
  rw [← String.toList_ofList (l := w), ← isCamelCaseField_iff, isCamelCaseField,
    String.toList_ofList] at h
  cases w with
  | nil => cases h
  | cons first rest =>
    rw [Bool.and_eq_true, List.all_eq_true] at h
    refine List.forall_mem_cons.mpr ⟨?_, h.2⟩
    simp [isAlphanum_eq, h.1]

theorem notMem_segment (h : w ∈ segmentPattern.matches') : '.' ∉ w := by
  intro hmem
  exact absurd (isAlphanum_of_segment h _ hmem) (by decide)

theorem nil_notMem_segment : [] ∉ segmentPattern.matches' := by
  intro h
  have hnil : isCamelCaseField "" = true := isCamelCaseField_iff.mpr h
  cases hnil

theorem forall_split {P : List Char → Prop} :
    (∀ segment ∈ Text.split '.' s, P segment.toList) ↔ ∀ part ∈ Text.splitChars '.' s.toList, P part := by
  simp [Text.split]

theorem ascii_of_segments (h : ∀ part ∈ Text.splitChars '.' s.toList, part ∈ segmentPattern.matches') :
    ∀ c ∈ s.toList, c.toNat < 128 := by
  intro c hc
  rcases mem_of_splitChars '.' hc with rfl | ⟨part, hpart, hc⟩
  · decide
  · exact toNat_lt_of_isAlphanum (isAlphanum_of_segment (h part hpart) c hc)

end Segments

theorem validateSegments_eq_ok_iff {path : String} {maxSegments : Nat} {segments : List String} :
    validateSegments path maxSegments = .ok segments ↔
      segments = Text.split '.' path ∧ path.isEmpty = false ∧ path.utf8ByteSize ≤ capacityPathMaxLen ∧
        segments.length ≤ maxSegments ∧ ∀ segment ∈ segments, isCamelCaseField segment = true := by
  unfold validateSegments
  constructor
  · intro h
    split at h
    · cases h
    rename_i hempty
    split at h
    · cases h
    rename_i hsize
    dsimp only at h
    split at h
    · cases h
    rename_i hlength
    split at h
    · cases h
    rename_i hfind
    cases h
    refine ⟨rfl, by simpa using hempty, Nat.le_of_not_lt hsize, Nat.le_of_not_lt hlength, ?_⟩
    simpa using List.find?_eq_none.mp hfind
  · rintro ⟨rfl, hempty, hsize, hlength, hall⟩
    have hfind : (Text.split '.' path).find? (fun segment => !isCamelCaseField segment) = none := by
      simpa using hall
    rw [if_neg (by simp [hempty]), if_neg (Nat.not_lt.mpr hsize)]
    dsimp only
    rw [if_neg (Nat.not_lt.mpr hlength), hfind]

/-- Splitting and looking at each segment accepts what the pattern matches: a text the pattern
matches has a first character, and is as long in bytes as in characters. -/
theorem validateSegments_ok_iff_matches {path : String} {n : Nat} {segments : List String} :
    validateSegments path (n + 1) = .ok segments ↔
      segments = Text.split '.' path ∧ path.toList ∈ (separatedUpTo n '.' segmentPattern).matches' ∧
        path.toList.length ≤ capacityPathMaxLen := by
  rw [validateSegments_eq_ok_iff, mem_separatedUpTo (fun _ => notMem_segment)]
  constructor
  · rintro ⟨rfl, -, hsize, hlength, hall⟩
    have hparts := forall_split.mp fun segment hmem => isCamelCaseField_iff.mp (hall segment hmem)
    refine ⟨rfl, ⟨?_, hparts⟩, ?_⟩
    · simpa [Text.split] using hlength
    · rwa [← utf8ByteSize_ascii (ascii_of_segments hparts)]
  · rintro ⟨rfl, ⟨hlength, hparts⟩, hsize⟩
    refine ⟨rfl, ?_, ?_, ?_, ?_⟩
    · cases hempty : path.isEmpty with
      | false => rfl
      | true =>
        rw [show path = "" by simpa using hempty] at hparts
        exact absurd (hparts [] (by decide)) nil_notMem_segment
    · rwa [utf8ByteSize_ascii (ascii_of_segments hparts)]
    · simpa [Text.split] using hlength
    · exact fun segment hmem => isCamelCaseField_iff.mpr (forall_split.mpr hparts segment hmem)

theorem validateCapacityField_eq_ok_iff {field : String} {segments : List String} :
    validateCapacityField field = .ok segments ↔
      validateSegments field capacityFieldMaxSegments = .ok segments ∧
        segments.headD "" ∉ capacityFieldReservedRoots := by
  unfold validateCapacityField
  rw [except_bind_eq_ok]
  constructor
  · rintro ⟨found, hfound, h⟩
    dsimp only at h
    split at h <;> cases h
    rename_i hroot
    exact ⟨hfound, by simpa using hroot⟩
  · rintro ⟨hfound, hroot⟩
    refine ⟨segments, hfound, ?_⟩
    dsimp only
    rw [if_neg (by simpa using hroot)]
    rfl

theorem validateDrainedPath_eq_ok_iff {path : String} {segments : List String} :
    validateDrainedPath path = .ok segments ↔
      validateSegments path capacityPathMaxSegments = .ok segments ∧
        Text.startsWith capacityDrainedPathPrefix path = true := by
  unfold validateDrainedPath validatePrefixed
  constructor
  · intro h
    split at h
    · cases h
    split at h
    · cases h
    · rename_i hpre
      exact ⟨h, by simpa using hpre⟩
  · rintro ⟨h, hpre⟩
    rw [if_neg (by simp [(validateSegments_ok h).1]), if_neg (by simp [hpre])]
    exact h

theorem head_split_eq_iff {s root : String} (hroot : '.' ∉ root.toList) :
    (Text.split '.' s).headD "" = root ↔
      s.toList = root.toList ∨ (root.toList ++ ['.']) <+: s.toList := by
  obtain ⟨part, parts, hsplit⟩ := List.exists_cons_of_ne_nil (Text.splitChars_ne_nil '.' s.toList)
  have hhead : (Text.split '.' s).headD "" = .ofList part := by simp [Text.split, hsplit]
  rw [hhead]
  constructor
  · intro h
    have hpart : part = root.toList := by rw [← h, String.toList_ofList]
    rw [eq_of_splitChars hsplit, hpart]
    cases parts with
    | nil => exact .inl (by simp)
    | cons next parts => exact .inr ⟨next ++ parts.flatMap fun p => '.' :: p, by simp⟩
  · intro h
    have hpart : part = root.toList := by
      rcases h with h | ⟨rest, h⟩
      · rw [h, splitChars_of_notMem hroot] at hsplit
        exact (List.cons.inj hsplit).1.symm
      · rw [← h, List.append_assoc, List.singleton_append, splitChars_append hroot] at hsplit
        exact (List.cons.inj hsplit).1.symm
    rw [hpart, String.ofList_toList]

theorem head_notMem_reservedRoots_iff {field : String} :
    (Text.split '.' field).headD "" ∉ capacityFieldReservedRoots ↔ AvoidsReservedRoots field := by
  have hdot : ∀ root ∈ capacityFieldReservedRoots, '.' ∉ root.toList := by decide
  constructor
  · intro h root hroot
    refine not_or.mp fun heq => h ?_
    rw [(head_split_eq_iff (hdot root hroot)).mpr heq]
    exact hroot
  · intro h hmem
    have heq := (head_split_eq_iff (s := field) (hdot _ hmem)).mp rfl
    rcases heq with heq | heq
    · exact (h _ hmem).1 heq
    · exact (h _ hmem).2 heq

section Acceptance

variable (s : String)

theorem validateCapacityField_accepts_iff :
    (∃ segments, validateCapacityField s = .ok segments) ↔
      s.toList ∈ capacityFieldPattern.matches' ∧ s.toList.length ≤ 253 ∧
        (Text.split '.' s).headD "" ∉ capacityFieldReservedRoots := by
  simp only [validateCapacityField_eq_ok_iff, capacityFieldMaxSegments, capacityPathMaxSegments,
    Nat.add_one_sub_one, validateSegments_ok_iff_matches, capacityFieldPattern]
  constructor
  · rintro ⟨_, ⟨rfl, hpattern, hlength⟩, hroot⟩
    exact ⟨hpattern, hlength, hroot⟩
  · rintro ⟨hpattern, hlength, hroot⟩
    exact ⟨_, ⟨rfl, hpattern, hlength⟩, hroot⟩

theorem validateDrainedPath_accepts_iff :
    (∃ segments, validateDrainedPath s = .ok segments) ↔
      s.toList ∈ capacityPathPattern.matches' ∧ s.toList.length ≤ 253 ∧
        Text.startsWith capacityDrainedPathPrefix s = true := by
  simp only [validateDrainedPath_eq_ok_iff, capacityPathMaxSegments, validateSegments_ok_iff_matches,
    capacityPathPattern]
  constructor
  · rintro ⟨_, ⟨rfl, hpattern, hlength⟩, hpre⟩
    exact ⟨hpattern, hlength, hpre⟩
  · rintro ⟨hpattern, hlength, hpre⟩
    exact ⟨_, ⟨rfl, hpattern, hlength⟩, hpre⟩

/-- The validators accept what the patterns, the bound on the length, and the rules on the first
segment describe. -/
theorem capacity_validators_match_patterns :
    ((∃ segments, validateCapacityField s = .ok segments) ↔
      s.toList ∈ capacityFieldPattern.matches' ∧ s.toList.length ≤ 253 ∧
        (Text.split '.' s).headD "" ∉ capacityFieldReservedRoots) ∧
    ((∃ segments, validateDrainedPath s = .ok segments) ↔
      s.toList ∈ capacityPathPattern.matches' ∧ s.toList.length ≤ 253 ∧
        Text.startsWith capacityDrainedPathPrefix s = true) :=
  ⟨validateCapacityField_accepts_iff s, validateDrainedPath_accepts_iff s⟩

theorem length_pos_of_separatedUpTo {n : Nat}
    (h : s.toList ∈ (separatedUpTo n '.' segmentPattern).matches') : 1 ≤ s.toList.length := by
  rw [mem_separatedUpTo (fun _ => notMem_segment)] at h
  refine List.length_pos_iff.mpr fun hnil => ?_
  rw [hnil] at h
  exact nil_notMem_segment (h.2 [] (by decide))

/-- What the API server admits as a capacity field is what the controller accepts. -/
theorem validateCapacityField_iff_admits :
    (∃ segments, validateCapacityField s = .ok segments) ↔
      capacityFieldSchema.Admits s ∧ AvoidsReservedRoots s := by
  rw [validateCapacityField_accepts_iff, head_notMem_reservedRoots_iff]
  constructor
  · rintro ⟨hpattern, hlength, hroot⟩
    exact ⟨⟨length_pos_of_separatedUpTo s hpattern, hlength, hpattern⟩, hroot⟩
  · rintro ⟨hadmits, hroot⟩
    exact ⟨hadmits.pattern, hadmits.max, hroot⟩

/-- The bound of eight characters adds nothing: behind the prefix stands a segment. -/
theorem validateDrainedPath_iff_admits :
    (∃ segments, validateDrainedPath s = .ok segments) ↔
      capacityDrainedPathSchema.Admits s ∧ Text.startsWith capacityDrainedPathPrefix s = true := by
  rw [validateDrainedPath_accepts_iff]
  constructor
  · rintro ⟨hpattern, hlength, hpre⟩
    refine ⟨⟨?_, hlength, hpattern⟩, hpre⟩
    obtain ⟨rest, hrest⟩ := List.isPrefixOf_iff_prefix.mp hpre
    have hne : rest ≠ [] := by
      rintro rfl
      rw [capacityPathPattern, mem_separatedUpTo (fun _ => notMem_segment), ← hrest] at hpattern
      exact nil_notMem_segment (hpattern.2 [] (by decide))
    have hpos := List.length_pos_iff.mpr hne
    have hseven : capacityDrainedPathPrefix.toList.length = 7 := rfl
    change 8 ≤ s.toList.length
    rw [← hrest, List.length_append]
    omega
  · rintro ⟨hadmits, hpre⟩
    exact ⟨hadmits.pattern, hadmits.max, hpre⟩

end Acceptance

end FiveSpot.Capacity
