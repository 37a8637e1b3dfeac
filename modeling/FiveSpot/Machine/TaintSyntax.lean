import FiveSpot.Data.Utf8
import FiveSpot.Kata.Reference
import FiveSpot.Machine.TaintPatches

/-!
# Which taints the validator accepts

The tests of `validate_node_taints` go by indices of bytes and by a split at the slash. Here they are
compared with the patterns that the documentation gives.
-/

namespace FiveSpot.Machine

set_option autoImplicit false

open Pattern Utf8
open Kata (alphanumerics isAlphanum_iff class_ascii isEmpty_iff_toList)

section Grammar

/-- `[a-z0-9A-Z]([-a-zA-Z0-9.]*[a-zA-Z0-9])?`, at most 63 characters. -/
def qualifiedNameSchema : StringSchema := ⟨1, 63, bounded alphanumerics (alphanumerics ++ ['-', '.'])⟩

/-- `[a-zA-Z0-9]([-a-zA-Z0-9]*[a-zA-Z0-9])?`, at most 63 characters. -/
def taintLabelSchema : StringSchema := ⟨1, 63, bounded alphanumerics (alphanumerics ++ ['-'])⟩

/-- At most 253 characters, in labels with dots between them. -/
structure IsTaintDomain (s : String) : Prop where
  length : s.toList.length ≤ 253
  labels : ∀ label ∈ Text.split '.' s, taintLabelSchema.Admits label

/-- A name, or a prefix, a slash and a name. -/
def IsTaintKey (key : String) : Prop :=
  qualifiedNameSchema.Admits key ∨
    ∃ pre name, key = pre ++ "/" ++ name ∧ IsTaintDomain pre ∧ qualifiedNameSchema.Admits name

def reservedTaintPrefixes : List String := reservedTaintPrefixOwn :: reservedK8sTaintPrefixes

structure NodeTaint.WellFormed (t : NodeTaint) : Prop where
  key : IsTaintKey t.key
  unreserved : ∀ pre ∈ reservedTaintPrefixes, ¬ pre.toList <+: t.key.toList
  value : ∀ v, t.value = some v → v = "" ∨ qualifiedNameSchema.Admits v

end Grammar

section Names

variable {s : String} {w marks : List Char}

/-- The tests of the first and the last character and of all of them. -/
def boundedBy {α : Type} (ends inner : α → Bool) (w : List α) : Bool :=
  w.head?.any ends && w.getLast?.any ends && w.all fun c => ends c || inner c

theorem any_isAlphanum_iff {o : Option Char} :
    o.any Char.isAlphanum = true ↔ ∃ c ∈ alphanumerics, o = some c := by
  rw [Option.any_eq_true]
  constructor
  · rintro ⟨c, hc, halnum⟩
    exact ⟨c, isAlphanum_iff.mp halnum, hc⟩
  · rintro ⟨c, hmem, hc⟩
    exact ⟨c, hc, isAlphanum_iff.mpr hmem⟩

theorem boundedBy_iff : boundedBy Char.isAlphanum (fun c => marks.contains c) w = true ↔
    w ∈ (bounded alphanumerics (alphanumerics ++ marks)).matches' := by
  rw [mem_bounded (List.subset_append_left _ _), boundedBy, Bool.and_eq_true, Bool.and_eq_true,
    any_isAlphanum_iff, any_isAlphanum_iff, List.all_eq_true]
  simp only [Bool.or_eq_true, List.contains_iff_mem, isAlphanum_iff, List.mem_append]
  tauto

theorem length_pos_of_bounded (h : w ∈ (bounded alphanumerics (alphanumerics ++ marks)).matches') :
    1 ≤ w.length := by
  obtain ⟨-, ⟨c, -, hc⟩, -⟩ := (mem_bounded (List.subset_append_left _ _)).mp h
  exact List.length_pos_of_mem (List.mem_of_mem_head? hc)

theorem ascii_of_bounded (hmarks : ∀ c ∈ marks, c.toNat < 128)
    (h : w ∈ (bounded alphanumerics (alphanumerics ++ marks)).matches') : ∀ c ∈ w, c.toNat < 128 :=
  class_ascii hmarks ((mem_bounded (List.subset_append_left _ _)).mp h).1

theorem admits_iff (hmarks : ∀ c ∈ marks, c.toNat < 128) :
    StringSchema.Admits ⟨1, 63, bounded alphanumerics (alphanumerics ++ marks)⟩ s ↔
      s.utf8ByteSize ≤ taintNameMaxLen ∧
        boundedBy Char.isAlphanum (fun c => marks.contains c) s.toList = true := by
  rw [boundedBy_iff]
  constructor
  · rintro ⟨-, hmax, hpattern⟩
    rw [utf8ByteSize_ascii (ascii_of_bounded hmarks hpattern)]
    exact ⟨hmax, hpattern⟩
  · rintro ⟨hsize, hpattern⟩
    rw [utf8ByteSize_ascii (ascii_of_bounded hmarks hpattern)] at hsize
    exact ⟨length_pos_of_bounded hpattern, hsize, hpattern⟩

theorem isQualifiedName_eq (s : String) : isQualifiedName s =
    boundedBy Char.isAlphanum (fun c => ['-', '.'].contains c) s.toList := by
  unfold isQualifiedName
  cases s.toList with
  | nil => rfl
  | cons first rest =>
    rcases List.eq_nil_or_concat rest with rfl | ⟨mid, last, rfl⟩
    · cases hfirst : first.isAlphanum <;> simp [boundedBy, hfirst]
    · have hlast : (first :: mid.concat last).getLast? = some last := by
        rw [List.concat_eq_append, ← List.cons_append, List.getLast?_concat]
      have hrest : (mid.concat last).getLast? = some last := by
        rw [List.concat_eq_append, List.getLast?_concat]
      dsimp only
      rw [boundedBy, hlast, hrest]
      cases hfirst : first.isAlphanum <;> cases hend : last.isAlphanum <;>
        simp [hfirst, hend, List.concat_eq_append, Bool.or_assoc, Bool.beq_eq_decide_eq]

theorem isQualifiedName_iff : s.utf8ByteSize ≤ taintNameMaxLen ∧ isQualifiedName s = true ↔
    qualifiedNameSchema.Admits s := by
  rw [isQualifiedName_eq, qualifiedNameSchema, admits_iff (by simp)]

theorem label_tests_iff : (!s.isEmpty && decide (s.utf8ByteSize ≤ taintNameMaxLen) &&
      s.toList.head?.any Char.isAlphanum && s.toList.getLast?.any Char.isAlphanum &&
      s.toList.all fun c => c.isAlphanum || c == '-') = true ↔ taintLabelSchema.Admits s := by
  have hempty : s.toList.head?.any Char.isAlphanum = true → s.isEmpty = false := by
    intro hhead
    obtain ⟨c, hc, -⟩ := (Option.any_eq_true _ _).mp hhead
    exact isEmpty_eq_false_of_mem (List.mem_of_mem_head? hc)
  rw [taintLabelSchema, admits_iff (by simp), boundedBy]
  simp only [Bool.and_eq_true, Bool.not_eq_true', decide_eq_true_eq, List.contains_cons,
    List.contains_nil, Bool.or_false]
  tauto

theorem ascii_of_labels (h : ∀ label ∈ Text.split '.' s, taintLabelSchema.Admits label) :
    ∀ c ∈ s.toList, c.toNat < 128 := by
  intro c hc
  rcases Text.mem_of_splitChars '.' hc with rfl | ⟨part, hpart, hc⟩
  · decide
  · have hlabel := (h (.ofList part) (List.mem_map_of_mem hpart)).pattern
    rw [String.toList_ofList] at hlabel
    exact ascii_of_bounded (by simp) hlabel c hc

theorem isDnsSubdomain_iff : isDnsSubdomain s = true ↔ IsTaintDomain s := by
  unfold isDnsSubdomain
  constructor
  · intro h
    split at h
    · cases h
    · rename_i hsize
      rw [Bool.or_eq_true, decide_eq_true_eq, not_or, Nat.not_lt] at hsize
      have hlabels : ∀ label ∈ Text.split '.' s, taintLabelSchema.Admits label := fun label hlabel =>
        label_tests_iff.mp (List.all_eq_true.mp h label hlabel)
      refine ⟨?_, hlabels⟩
      rw [← utf8ByteSize_ascii (ascii_of_labels hlabels)]
      exact hsize.2
  · rintro ⟨hlength, hlabels⟩
    have hsize : ¬ taintPrefixMaxLen < s.utf8ByteSize := by
      rw [utf8ByteSize_ascii (ascii_of_labels hlabels)]
      exact Nat.not_lt.mpr hlength
    have hempty : s.isEmpty = false := by
      by_contra hempty
      have hnil := isEmpty_iff_toList.mp ((Bool.not_eq_false _).mp hempty)
      have hmin := (hlabels "" (by rw [Text.split, hnil]; exact List.mem_singleton.mpr rfl)).min
      cases hmin
    rw [if_neg (by simp [hempty, hsize]), List.all_eq_true]
    exact fun label hlabel => label_tests_iff.mpr (hlabels label hlabel)

end Names

section Keys

variable {key pre name value : String}

theorem guard_bind_eq_ok_iff {c : Prop} [Decidable c] {e : String} {rest : Except String Unit} :
    (if c then (throw e >>= fun _ : PUnit => rest) else rest) = .ok () ↔ ¬ c ∧ rest = .ok () := by
  split
  · rename_i hc
    exact iff_of_false (nomatch ·) fun h => h.1 hc
  · rename_i hc
    exact ⟨fun h => ⟨hc, h⟩, And.right⟩

theorem guard_eq_ok_iff {c : Prop} [Decidable c] {e : String} :
    (if c then throw e else pure () : Except String Unit) = .ok () ↔ ¬ c := by
  split
  · rename_i hc
    exact iff_of_false (nomatch ·) fun h => h hc
  · rename_i hc
    exact iff_of_true rfl hc

theorem name_tests_iff : ¬ (name.isEmpty || decide (taintNameMaxLen < name.utf8ByteSize)) = true ∧
    ¬ (!isQualifiedName name) = true ↔ qualifiedNameSchema.Admits name := by
  simp only [Bool.or_eq_true, decide_eq_true_eq, not_or, Nat.not_lt, Bool.not_eq_true', Bool.not_eq_false]
  constructor
  · rintro ⟨⟨-, hsize⟩, hname⟩
    exact isQualifiedName_iff.mp ⟨hsize, hname⟩
  · intro hadmits
    obtain ⟨hsize, hname⟩ := isQualifiedName_iff.mpr hadmits
    exact ⟨⟨by simp [hadmits.isEmpty_eq_false Nat.zero_lt_one], hsize⟩, hname⟩

/-- The first test of a prefix is made again by the second. -/
theorem domain_tests_iff : ¬ (pre.isEmpty || decide (taintPrefixMaxLen < pre.utf8ByteSize)) = true ∧
    ¬ (!isDnsSubdomain pre) = true ↔ IsTaintDomain pre := by
  rw [← isDnsSubdomain_iff, Bool.not_eq_true', Bool.not_eq_false, and_iff_right_iff_imp]
  intro hdomain hsize
  rw [isDnsSubdomain, if_pos hsize] at hdomain
  cases hdomain

theorem unreserved_iff : (¬ Text.startsWith reservedTaintPrefixOwn key = true ∧
    (reservedK8sTaintPrefixes.find? fun pre => Text.startsWith pre key) = none) ↔
      ∀ pre ∈ reservedTaintPrefixes, ¬ pre.toList <+: key.toList := by
  rw [reservedTaintPrefixes, List.forall_mem_cons, List.find?_eq_none]
  simp only [Text.startsWith, List.isPrefixOf_iff_prefix]

theorem slash_notMem {marks w : List Char} (hmarks : '/' ∉ marks)
    (h : w ∈ (bounded alphanumerics (alphanumerics ++ marks)).matches') : '/' ∉ w := by
  intro hslash
  rcases List.mem_append.mp (((mem_bounded (List.subset_append_left _ _)).mp h).1 _ hslash) with hc | hc
  · exact absurd (isAlphanum_iff.mpr hc) (by decide)
  · exact hmarks hc

theorem slash_notMem_domain (h : IsTaintDomain pre) : '/' ∉ pre.toList := by
  intro hslash
  rcases Text.mem_of_splitChars '.' hslash with hdot | ⟨part, hpart, hslash⟩
  · cases hdot
  · have hlabel := (h.labels (.ofList part) (List.mem_map_of_mem hpart)).pattern
    rw [String.toList_ofList] at hlabel
    exact slash_notMem (by simp) hlabel hslash

theorem isTaintKey_of_splitOnce_none (h : Text.splitOnce '/' key = none) :
    IsTaintKey key ↔ qualifiedNameSchema.Admits key := by
  refine or_iff_left ?_
  rintro ⟨pre, name, hkey, hpre, -⟩
  rw [Text.splitOnce_eq_some_iff.mpr ⟨hkey, slash_notMem_domain hpre⟩] at h
  cases h

theorem isTaintKey_of_splitOnce_some (h : Text.splitOnce '/' key = some (pre, name)) :
    IsTaintKey key ↔ IsTaintDomain pre ∧ qualifiedNameSchema.Admits name := by
  constructor
  · rintro (hname | ⟨pre', name', hkey, hpre, hname⟩)
    · have hslash : '/' ∈ key.toList := Text.splitOnce_isSome_iff.mp (by rw [h]; rfl)
      exact absurd hslash (slash_notMem (by simp) hname.pattern)
    · rw [Text.splitOnce_eq_some_iff.mpr ⟨hkey, slash_notMem_domain hpre⟩] at h
      cases h
      exact ⟨hpre, hname⟩
  · rintro ⟨hpre, hname⟩
    exact .inr ⟨pre, name, (Text.splitOnce_eq_some_iff.mp h).1, hpre, hname⟩

theorem validateTaintKey_eq_ok_iff : validateTaintKey key = .ok () ↔
    IsTaintKey key ∧ ∀ pre ∈ reservedTaintPrefixes, ¬ pre.toList <+: key.toList := by
  rw [← unreserved_iff]
  unfold validateTaintKey
  cases hk8s : reservedK8sTaintPrefixes.find? fun pre => Text.startsWith pre key with
  | some pre =>
    simp only [guard_bind_eq_ok_iff]
    exact iff_of_false (fun h => nomatch h.2.2) fun h => nomatch h.2.2
  | none =>
    cases hsplit : Text.splitOnce '/' key with
    | none =>
      simp only [guard_bind_eq_ok_iff, guard_eq_ok_iff]
      rw [isTaintKey_of_splitOnce_none hsplit, name_tests_iff]
      have hempty : qualifiedNameSchema.Admits key → ¬ key.isEmpty = true := fun hadmits =>
        Bool.eq_false_iff.mp (hadmits.isEmpty_eq_false Nat.zero_lt_one)
      tauto
    | some parts =>
      obtain ⟨pre, name⟩ := parts
      simp only [guard_bind_eq_ok_iff, guard_eq_ok_iff]
      rw [isTaintKey_of_splitOnce_some hsplit, name_tests_iff, ← domain_tests_iff]
      have hslash : '/' ∈ key.toList := Text.splitOnce_isSome_iff.mp (by rw [hsplit]; rfl)
      have hempty : ¬ key.isEmpty = true := Bool.eq_false_iff.mp (isEmpty_eq_false_of_mem hslash)
      tauto

theorem validateTaintValue_eq_ok_iff : validateTaintValue value = .ok () ↔
    value = "" ∨ qualifiedNameSchema.Admits value := by
  unfold validateTaintValue
  by_cases hempty : value.isEmpty = true
  · rw [if_pos hempty]
    exact iff_of_true rfl (.inl (String.isEmpty_iff.mp hempty))
  · rw [if_neg hempty, ← name_tests_iff, or_iff_right (mt String.isEmpty_iff.mpr hempty)]
    split
    · rename_i hsize
      exact iff_of_false (nomatch ·) fun h => h.1 (by simp [hsize])
    · rename_i hsize
      split
      · rename_i hname
        exact iff_of_false (nomatch ·) fun h => h.2 hname
      · rename_i hname
        exact iff_of_true rfl ⟨by simp [hempty, hsize], hname⟩

end Keys

section Bytes

/-- `u8::is_ascii_alphanumeric`. -/
def isAsciiAlphanumeric (b : UInt8) : Bool :=
  (48 ≤ b.toNat && b.toNat ≤ 57) || (65 ≤ b.toNat && b.toNat ≤ 90) || (97 ≤ b.toNat && b.toNat ≤ 122)

/-- `is_qualified_name` with its indices: the first byte, the last one and the slice between them. -/
def isQualifiedNameBytes (bytes : Bytes) : Bool :=
  if bytes.isEmpty then false
  else if !bytes[0]?.any isAsciiAlphanumeric then false
  else if bytes.length == 1 then true
  else if !bytes[bytes.length - 1]?.any isAsciiAlphanumeric then false
  else ((bytes.take (bytes.length - 1)).drop 1).all fun b =>
    isAsciiAlphanumeric b || b == 45 || b == 46

def isLabelBytes (bytes : Bytes) : Bool :=
  bytes.head?.any isAsciiAlphanumeric && bytes.getLast?.any isAsciiAlphanumeric &&
    bytes.all fun b => isAsciiAlphanumeric b || b == 45

theorem isQualifiedNameBytes_eq (bytes : Bytes) : isQualifiedNameBytes bytes =
    boundedBy isAsciiAlphanumeric (fun b => b == 45 || b == 46) bytes := by
  unfold isQualifiedNameBytes
  cases bytes with
  | nil => rfl
  | cons first rest =>
    rcases List.eq_nil_or_concat rest with rfl | ⟨mid, last, rfl⟩
    · cases hfirst : isAsciiAlphanumeric first <;> simp [boundedBy, hfirst]
    · have hlast : (first :: mid.concat last).getLast? = some last := by
        rw [List.concat_eq_append, ← List.cons_append, List.getLast?_concat]
      rw [← List.getLast?_eq_getElem?, boundedBy, hlast]
      cases hfirst : isAsciiAlphanumeric first <;> cases hend : isAsciiAlphanumeric last <;>
        simp [hfirst, hend, List.concat_eq_append, Bool.or_assoc]

theorem isAsciiAlphanumeric_of_le {b : UInt8} (h : 128 ≤ b.toNat) : isAsciiAlphanumeric b = false := by
  simp only [isAsciiAlphanumeric, Bool.or_eq_false_iff, Bool.and_eq_false_iff, decide_eq_false_iff_not]
  omega

theorem onAscii_alphanumeric (c : Char) : onAscii isAsciiAlphanumeric c = c.isAlphanum :=
  onAscii_eq (by decide) (fun _ => toNat_lt_of_isAlphanum) c

theorem onAscii_contains {test : UInt8 → Bool} {marks : List Char}
    (hascii : ∀ n < 128, test (.ofNat n) = marks.contains (Char.ofNat n))
    (hmarks : ∀ c ∈ marks, c.toNat < 128) :
    onAscii test = fun c => marks.contains c :=
  funext (onAscii_eq hascii fun c hc => hmarks c (List.contains_iff_mem.mp hc))

theorem boundedBy_asBytes {ends inner : UInt8 → Bool} (hends : ∀ b : UInt8, 128 ≤ b.toNat → ends b = false)
    (hinner : ∀ b : UInt8, 128 ≤ b.toNat → inner b = false) (s : String) :
    boundedBy ends inner (asBytes s) = boundedBy (onAscii ends) (onAscii inner) s.toList := by
  have hboth : ∀ b : UInt8, 128 ≤ b.toNat → (ends b || inner b) = false := by
    intro b hb
    rw [hends b hb, hinner b hb]
    rfl
  have hor : onAscii (fun b => ends b || inner b) = fun c => onAscii ends c || onAscii inner c := by
    funext c
    exact Bool.and_or_distrib_left _ _ _
  rw [boundedBy, any_head?_asBytes hends, any_getLast?_asBytes hends, all_asBytes hboth, hor, boundedBy]

theorem isQualifiedName_eq_bytes (s : String) : isQualifiedName s = isQualifiedNameBytes (asBytes s) := by
  have hmarks : ∀ b : UInt8, 128 ≤ b.toNat → (b == 45 || b == 46) = false := by
    intro b hb
    rw [Bool.or_eq_false_iff, beq_eq_false_iff_ne, beq_eq_false_iff_ne]
    constructor
    · rintro rfl
      exact absurd hb (by decide)
    · rintro rfl
      exact absurd hb (by decide)
  have hcontains : onAscii (fun b => b == 45 || b == 46) = fun c => ['-', '.'].contains c :=
    onAscii_contains (by decide) (by simp)
  rw [isQualifiedNameBytes_eq, boundedBy_asBytes (fun _ => isAsciiAlphanumeric_of_le) hmarks,
    funext onAscii_alphanumeric, hcontains, isQualifiedName_eq]

theorem labelTests_eq_bytes (s : String) :
    boundedBy Char.isAlphanum (fun c => ['-'].contains c) s.toList = isLabelBytes (asBytes s) := by
  have hmarks : ∀ b : UInt8, 128 ≤ b.toNat → (b == 45) = false := by
    intro b hb
    rw [beq_eq_false_iff_ne]
    rintro rfl
    exact absurd hb (by decide)
  have hcontains : onAscii (fun b => b == 45) = fun c => ['-'].contains c :=
    onAscii_contains (by decide) (by simp)
  have hbytes : isLabelBytes (asBytes s) =
      boundedBy isAsciiAlphanumeric (fun b => b == 45) (asBytes s) := rfl
  rw [hbytes, boundedBy_asBytes (fun _ => isAsciiAlphanumeric_of_le) hmarks,
    funext onAscii_alphanumeric, hcontains]

end Bytes

section Lists

theorem NodeTaint.valid_iff {t : NodeTaint} : t.Valid ↔ t.WellFormed := by
  rw [NodeTaint.Valid, validateTaintKey_eq_ok_iff]
  simp only [validateTaintValue_eq_ok_iff]
  constructor
  · rintro ⟨⟨hkey, hunreserved⟩, hvalue⟩
    exact ⟨hkey, hunreserved, hvalue⟩
  · rintro ⟨hkey, hunreserved, hvalue⟩
    exact ⟨⟨hkey, hunreserved⟩, hvalue⟩

theorem distinctDesired_iff {taints : List NodeTaint} : DistinctDesired taints ↔
    taints.Pairwise fun a b => (a.key, a.effect) ≠ (b.key, b.effect) := by
  rw [DistinctDesired, List.Nodup, List.pairwise_map]
  refine List.Pairwise.iff fun {a b} => not_congr ?_
  rw [← sameIdentity_iff]
  simp

theorem validateNodeTaints_perm {taints taints' : List NodeTaint} (h : taints'.Perm taints) :
    validateNodeTaints taints' = .ok () ↔ validateNodeTaints taints = .ok () := by
  rw [validateNodeTaints_eq_ok_iff, validateNodeTaints_eq_ok_iff, DistinctDesired, DistinctDesired,
    (h.map NodeTaint.identity).nodup_iff]
  simp only [h.mem_iff]

/--
The lists that the validator accepts: every taint is well-formed and no pair of key and effect is there
twice. The order of the list does not matter.
-/
theorem node_taints_accepted_iff (taints : List NodeTaint) :
    (validateNodeTaints taints = .ok () ↔ (∀ t ∈ taints, t.WellFormed) ∧
        taints.Pairwise fun a b => (a.key, a.effect) ≠ (b.key, b.effect)) ∧
      ∀ taints', taints'.Perm taints →
        (validateNodeTaints taints' = .ok () ↔ validateNodeTaints taints = .ok ()) := by
  refine ⟨?_, fun taints' => validateNodeTaints_perm⟩
  rw [validateNodeTaints_eq_ok_iff, distinctDesired_iff]
  simp only [NodeTaint.valid_iff]

end Lists

end FiveSpot.Machine
