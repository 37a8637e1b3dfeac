import FiveSpot.Data.Pattern
import FiveSpot.Machine.Projection

/-!
# The kata reference

The controller prints `spec.kata` into an annotation of the Node and the agent there reads it back.
The values are checked twice, by the patterns of the CRD and by hand-written tests in the agent.
-/

namespace FiveSpot.Kata

set_option autoImplicit false

open Pattern Text

structure KataRef where
  ns : String
  /-- `"ConfigMap"` or `"Secret"`. -/
  kind : String
  name : String
  key : String
  restartService : String
  deriving DecidableEq

/-- Why an annotation is refused; the text of a `serde_json` error is left out. -/
inductive KataRefError where
  | json
  | field (field reason value : String)
  deriving DecidableEq

def maxDnsLabelLen : Nat := 63
def maxDnsSubdomainLen : Nat := 253
def maxDataKeyLen : Nat := 253
def maxUnitNameLen : Nat := 255
def unitSuffix : String := ".service"

def isDnsLabel (s : String) : Bool :=
  if s.isEmpty || maxDnsLabelLen < s.utf8ByteSize then false
  else if !s.toList.all fun c => c.isLower || c.isDigit || c == '-' then false
  else s.toList.head?.any Char.isAlphanum && s.toList.getLast?.any Char.isAlphanum

def isDnsSubdomain (s : String) : Bool :=
  if s.isEmpty || maxDnsSubdomainLen < s.utf8ByteSize then false
  else (Text.split '.' s).all isDnsLabel

def isDataKey (s : String) : Bool :=
  !s.isEmpty && s.utf8ByteSize ≤ maxDataKeyLen &&
    s.toList.all fun c => c.isAlphanum || c == '.' || c == '_' || c == '-'

def isSystemdUnit (s : String) : Bool :=
  if maxUnitNameLen < s.utf8ByteSize || !Text.endsWith unitSuffix s || s == unitSuffix then false
  else if !s.toList.all fun c => c.isAlphanum || ['@', '.', '_', '-'].contains c then false
  else s.toList.head?.any fun c => c.isAlphanum || ['@', '.', '_'].contains c

/-- A field of the reference: there once, and a text. -/
def readField (members : List (String × Json)) (name : String) : Option String :=
  match members.filter fun m => m.1 == name with
  | [(_, .str s)] => some s
  | _ => none

/-- The derived `Deserialize`: fields it does not know are ignored, and the fields in their order may
also stand in an array. -/
def KataRef.fromJson : Json → Option KataRef
  | .obj members => do
      return {
        ns := ← readField members "namespace"
        kind := ← readField members "kind"
        name := ← readField members "name"
        key := ← readField members "key"
        restartService := ← readField members "restartService" }
  | .arr [.str ns, .str kind, .str name, .str key, .str restartService] =>
      some { ns, kind, name, key, restartService }
  | _ => none

def kindConfigMap : String := "ConfigMap"
def kindSecret : String := "Secret"

/-- Every field is checked again where it is used; a bad one is refused, not mended. -/
def validateFields (parsed : KataRef) : Except KataRefError KataRef :=
  if parsed.kind != kindConfigMap && parsed.kind != kindSecret then
    .error (.field "kind" "must be ConfigMap or Secret" parsed.kind)
  else if !isDnsLabel parsed.ns then
    .error (.field "namespace" "must be an RFC-1123 label" parsed.ns)
  else if !isDnsSubdomain parsed.name then
    .error (.field "name" "must be an RFC-1123 subdomain" parsed.name)
  else if !isDataKey parsed.key then
    .error (.field "key" "must match the Kubernetes data-key charset" parsed.key)
  else if !isSystemdUnit parsed.restartService then
    .error (.field "restartService" "must be a .service unit name not starting with a hyphen"
      parsed.restartService)
  else .ok parsed

def parseKataRef (json : Json.Reader) ( annotation : String) : Except KataRefError KataRef :=
  match (json.fromStr annotation).bind KataRef.fromJson with
  | none => .error .json
  | some parsed => validateFields parsed

section Schemas

/-! The schemas of `spec.kata` in `crd.rs`. -/

def lowerDigits : List Char := charRange 'a' 'z' ++ charRange '0' '9'

def alphanumerics : List Char := charRange 'A' 'Z' ++ charRange 'a' 'z' ++ charRange '0' '9'

/-- `[a-z0-9]([-a-z0-9]*[a-z0-9])?`. -/
def labelPattern : RegularExpression Char := bounded lowerDigits ('-' :: lowerDigits)

def kataConfigNameSchema : StringSchema := ⟨1, 253, separated '.' labelPattern⟩

def kataConfigNamespaceSchema : StringSchema := ⟨1, 63, labelPattern⟩

/-- `[A-Za-z0-9._-]+`. -/
def kataConfigKeySchema : StringSchema :=
  ⟨1, 253, oneOf (alphanumerics ++ ['.', '_', '-']) *
    (oneOf (alphanumerics ++ ['.', '_', '-'])).star⟩

/-- `[A-Za-z0-9@._][A-Za-z0-9@._-]*\.service`. -/
def kataConfigRestartServiceSchema : StringSchema :=
  ⟨1, 255, oneOf (alphanumerics ++ ['@', '.', '_']) *
    ((oneOf (alphanumerics ++ ['@', '.', '_', '-'])).star * literal ".service")⟩

structure KataRef.Admitted (r : KataRef) : Prop where
  kind : r.kind = kindConfigMap ∨ r.kind = kindSecret
  ns : kataConfigNamespaceSchema.Admits r.ns
  name : kataConfigNameSchema.Admits r.name
  key : kataConfigKeySchema.Admits r.key
  restartService : kataConfigRestartServiceSchema.Admits r.restartService

end Schemas

def KataRef.ofConfig (kata : Machine.KataConfig) : KataRef :=
  ⟨kata.ns, kata.kind.text, kata.name, kata.key, kata.restartService⟩

section Classes

variable {c : Char}

theorem isAlphanum_iff : c.isAlphanum = true ↔ c ∈ alphanumerics := by
  simp only [isAlphanum_eq, alphanumerics, Bool.or_eq_true, List.mem_append, isUpper_iff, isLower_iff,
    isDigit_iff]

theorem mem_lowerDigits : c ∈ lowerDigits ↔ c.isLower = true ∨ c.isDigit = true := by
  simp only [lowerDigits, List.mem_append, isLower_iff, isDigit_iff]

theorem toNat_lt_of_alphanumerics (h : c ∈ alphanumerics) : c.toNat < 128 :=
  toNat_lt_of_isAlphanum (isAlphanum_iff.mpr h)

theorem isAlphanum_of_label (h : c ∈ '-' :: lowerDigits) : c.isAlphanum = true ↔ c ∈ lowerDigits := by
  rcases List.mem_cons.mp h with rfl | h
  · decide
  · refine ⟨fun _ => h, fun _ => ?_⟩
    rcases mem_lowerDigits.mp h with h | h
    · simp [isAlphanum_eq, h]
    · simp [isAlphanum_eq, h]

end Classes

section Checks

variable {s : String}

theorem isEmpty_iff_toList : s.isEmpty = true ↔ s.toList = [] := by
  simp

theorem mem_labelPattern {w : List Char} : w ∈ labelPattern.matches' ↔
    (∀ c ∈ w, c ∈ '-' :: lowerDigits) ∧ (∃ c ∈ lowerDigits, w.head? = some c) ∧
      ∃ c ∈ lowerDigits, w.getLast? = some c :=
  mem_bounded (List.subset_cons_self _ _)

theorem label_ascii {w : List Char} (h : w ∈ labelPattern.matches') : ∀ c ∈ w, c.toNat < 128 := by
  intro c hc
  rcases List.mem_cons.mp ((mem_labelPattern.mp h).1 c hc) with rfl | hmem
  · decide
  · refine toNat_lt_of_alphanumerics ?_
    simp only [lowerDigits, alphanumerics, List.mem_append] at hmem ⊢
    rcases hmem with h | h
    · exact .inl (.inr h)
    · exact .inr h

theorem labelChars_iff {w : List Char} :
    (w.all fun c => c.isLower || c.isDigit || c == '-') = true ↔ ∀ c ∈ w, c ∈ '-' :: lowerDigits := by
  simp only [List.all_eq_true, Bool.or_eq_true, beq_iff_eq, List.mem_cons, mem_lowerDigits]
  exact forall₂_congr fun c _ => by tauto

theorem any_isAlphanum_iff {w : List Char} (hw : ∀ c ∈ w, c ∈ '-' :: lowerDigits) {o : Option Char}
    (ho : ∀ c, o = some c → c ∈ w) :
    o.any Char.isAlphanum = true ↔ ∃ c ∈ lowerDigits, o = some c := by
  rw [Option.any_eq_true]
  constructor
  · rintro ⟨c, hc, halnum⟩
    exact ⟨c, (isAlphanum_of_label (hw c (ho c hc))).mp halnum, hc⟩
  · rintro ⟨c, hmem, hc⟩
    exact ⟨c, hc, (isAlphanum_of_label (hw c (ho c hc))).mpr hmem⟩

theorem isDnsLabel_iff :
    isDnsLabel s = true ↔ s.toList ∈ labelPattern.matches' ∧ s.toList.length ≤ maxDnsLabelLen := by
  have hends : (∀ c ∈ s.toList, c ∈ '-' :: lowerDigits) →
      ((s.toList.head?.any Char.isAlphanum && s.toList.getLast?.any Char.isAlphanum) = true ↔
        (∃ c ∈ lowerDigits, s.toList.head? = some c) ∧
          ∃ c ∈ lowerDigits, s.toList.getLast? = some c) := by
    intro hw
    rw [Bool.and_eq_true, any_isAlphanum_iff hw fun c => List.mem_of_head?,
      any_isAlphanum_iff hw fun c => List.mem_of_getLast?]
  constructor
  · intro h
    unfold isDnsLabel at h
    split at h
    · cases h
    rename_i hsize
    split at h
    · cases h
    rename_i hchars
    rw [Bool.not_eq_true', Bool.not_eq_false] at hchars
    have hw := labelChars_iff.mp hchars
    have hmem := mem_labelPattern.mpr ⟨hw, (hends hw).mp h⟩
    refine ⟨hmem, ?_⟩
    rw [← utf8ByteSize_ascii (label_ascii hmem)]
    simp only [Bool.or_eq_true, decide_eq_true_eq, not_or, Nat.not_lt] at hsize
    exact hsize.2
  · rintro ⟨hmem, hlength⟩
    obtain ⟨hw, hhead, hlast⟩ := mem_labelPattern.mp hmem
    have hne : s.isEmpty = false := by
      obtain ⟨c, _, hc⟩ := hhead
      exact isEmpty_eq_false_of_mem (List.mem_of_mem_head? hc)
    have hsize : ¬ maxDnsLabelLen < s.utf8ByteSize := by
      rw [utf8ByteSize_ascii (label_ascii hmem)]
      omega
    unfold isDnsLabel
    rw [if_neg (by simp [hne, hsize]), if_neg (by rw [labelChars_iff.mpr hw]; decide)]
    exact (hends hw).mpr ⟨hhead, hlast⟩

theorem isDnsLabel_iff_admits : isDnsLabel s = true ↔ kataConfigNamespaceSchema.Admits s := by
  rw [isDnsLabel_iff]
  constructor
  · rintro ⟨hmem, hlength⟩
    refine ⟨?_, hlength, hmem⟩
    obtain ⟨c, _, hc⟩ := (mem_labelPattern.mp hmem).2.1
    exact List.length_pos_of_mem (List.mem_of_mem_head? hc)
  · intro hadmits
    exact ⟨hadmits.pattern, hadmits.max⟩

theorem notMem_label {w : List Char} (h : w ∈ labelPattern.matches') : '.' ∉ w := by
  intro hmem
  rcases List.mem_cons.mp ((mem_labelPattern.mp h).1 _ hmem) with hdash | hlower
  · cases hdash
  · revert hlower
    rw [mem_lowerDigits]
    decide

def ShortLabels (name : String) : Prop :=
  ∀ label ∈ Text.split '.' name, label.toList.length ≤ maxDnsLabelLen

instance (name : String) : Decidable (ShortLabels name) :=
  inferInstanceAs (Decidable (∀ label ∈ Text.split '.' name, label.toList.length ≤ maxDnsLabelLen))

theorem isDnsSubdomain_iff :
    isDnsSubdomain s = true ↔ kataConfigNameSchema.Admits s ∧ ShortLabels s := by
  have hlabels : (Text.split '.' s).all isDnsLabel = true ↔
      (∀ part ∈ Text.splitChars '.' s.toList, part ∈ labelPattern.matches') ∧ ShortLabels s := by
    unfold ShortLabels Text.split
    simp only [List.all_eq_true, List.forall_mem_map, isDnsLabel_iff, String.toList_ofList]
    exact forall₂_and
  have hpattern := mem_separated (r := labelPattern) (c := '.') (w := s.toList) fun _ => notMem_label
  have hascii : (∀ part ∈ Text.splitChars '.' s.toList, part ∈ labelPattern.matches') →
      ∀ c ∈ s.toList, c.toNat < 128 := by
    intro hall c hc
    rcases mem_of_splitChars '.' hc with rfl | ⟨part, hpart, hc⟩
    · decide
    · exact label_ascii (hall part hpart) c hc
  constructor
  · intro h
    unfold isDnsSubdomain at h
    split at h
    · cases h
    rename_i hsize
    obtain ⟨hall, hshort⟩ := hlabels.mp h
    simp only [Bool.or_eq_true, decide_eq_true_eq, not_or, Nat.not_lt] at hsize
    refine ⟨⟨?_, ?_, hpattern.mpr hall⟩, hshort⟩
    · exact List.length_pos_iff.mpr fun hnil => hsize.1 (isEmpty_iff_toList.mpr hnil)
    · rw [← utf8ByteSize_ascii (hascii hall)]
      exact hsize.2
  · rintro ⟨hadmits, hshort⟩
    have hall := hpattern.mp hadmits.pattern
    have hne : s.isEmpty = false := hadmits.isEmpty_eq_false Nat.zero_lt_one
    have hsize : ¬ maxDnsSubdomainLen < s.utf8ByteSize := by
      rw [utf8ByteSize_ascii (hascii hall)]
      exact Nat.not_lt.mpr hadmits.max
    unfold isDnsSubdomain
    rw [if_neg (by simp [hne, hsize])]
    exact hlabels.mpr ⟨hall, hshort⟩

theorem class_ascii {marks w : List Char} (hmarks : ∀ c ∈ marks, c.toNat < 128)
    (hw : ∀ c ∈ w, c ∈ alphanumerics ++ marks) : ∀ c ∈ w, c.toNat < 128 := by
  intro c hc
  rcases List.mem_append.mp (hw c hc) with hc | hc
  · exact toNat_lt_of_alphanumerics hc
  · exact hmarks c hc

theorem keyChars_iff {w : List Char} :
    (w.all fun c => c.isAlphanum || c == '.' || c == '_' || c == '-') = true ↔
      ∀ c ∈ w, c ∈ alphanumerics ++ ['.', '_', '-'] := by
  simp only [List.all_eq_true, Bool.or_eq_true, beq_iff_eq, List.mem_append, List.mem_cons,
    List.not_mem_nil, or_false, isAlphanum_iff]
  exact forall₂_congr fun c _ => by tauto

theorem isDataKey_iff : isDataKey s = true ↔ kataConfigKeySchema.Admits s := by
  have hascii : (∀ c ∈ s.toList, c ∈ alphanumerics ++ ['.', '_', '-']) →
      ∀ c ∈ s.toList, c.toNat < 128 := class_ascii (by simp)
  unfold isDataKey
  rw [Bool.and_eq_true, Bool.and_eq_true, Bool.not_eq_true', decide_eq_true_eq, keyChars_iff]
  constructor
  · rintro ⟨⟨hne, hsize⟩, hw⟩
    obtain ⟨c, v, hcons⟩ : ∃ c v, s.toList = c :: v :=
      List.exists_cons_of_ne_nil fun hnil => by simp [isEmpty_iff_toList.mpr hnil] at hne
    refine ⟨by rw [hcons]; simp [kataConfigKeySchema], ?_, ?_⟩
    · rw [← utf8ByteSize_ascii (hascii hw)]
      exact hsize
    · refine mem_oneOf_comp.mpr ⟨c, v, hcons, hw c (by simp [hcons]), mem_star_oneOf.mpr ?_⟩
      exact fun x hx => hw x (by simp [hcons, hx])
  · intro hadmits
    obtain ⟨c, v, hcons, hc, hv⟩ := mem_oneOf_comp.mp hadmits.pattern
    have hw : ∀ x ∈ s.toList, x ∈ alphanumerics ++ ['.', '_', '-'] := by
      rw [hcons]
      exact List.forall_mem_cons.mpr ⟨hc, mem_star_oneOf.mp hv⟩
    refine ⟨⟨?_, ?_⟩, hw⟩
    · exact hadmits.isEmpty_eq_false Nat.zero_lt_one
    · rw [utf8ByteSize_ascii (hascii hw)]
      exact hadmits.max

theorem unitChars_iff {w : List Char} :
    (w.all fun c => c.isAlphanum || ['@', '.', '_', '-'].contains c) = true ↔
      ∀ c ∈ w, c ∈ alphanumerics ++ ['@', '.', '_', '-'] := by
  simp only [List.all_eq_true, Bool.or_eq_true, List.contains_iff_mem, List.mem_append,
    isAlphanum_iff]

theorem unitHead_iff {o : Option Char} :
    (o.any fun c => c.isAlphanum || ['@', '.', '_'].contains c) = true ↔
      ∃ c ∈ alphanumerics ++ ['@', '.', '_'], o = some c := by
  rw [Option.any_eq_true]
  simp only [Bool.or_eq_true, List.contains_iff_mem, List.mem_append, isAlphanum_iff]
  exact exists_congr fun c => and_comm

theorem isSystemdUnit_iff :
    isSystemdUnit s = true ↔ kataConfigRestartServiceSchema.Admits s := by
  have hascii : (∀ c ∈ s.toList, c ∈ alphanumerics ++ ['@', '.', '_', '-']) →
      ∀ c ∈ s.toList, c.toNat < 128 := class_ascii (by simp)
  constructor
  · intro h
    unfold isSystemdUnit at h
    split at h
    · cases h
    rename_i hform
    split at h
    · cases h
    rename_i hchars
    rw [Bool.not_eq_true', Bool.not_eq_false] at hchars
    have hw := unitChars_iff.mp hchars
    obtain ⟨c, hc, hhead⟩ := unitHead_iff.mp h
    simp only [Bool.or_eq_true, decide_eq_true_eq, not_or, Nat.not_lt, Bool.not_eq_true',
      Bool.not_eq_false, beq_iff_eq] at hform
    obtain ⟨⟨hsize, hsuffix⟩, hne⟩ := hform
    obtain ⟨t, ht⟩ : unitSuffix.toList <:+ s.toList := List.isSuffixOf_iff_suffix.mp hsuffix
    -- the suffix is not all of it, so the first character stands before the suffix
    cases t with
    | nil => exact absurd (String.toList_inj.mp ht.symm) hne
    | cons x v =>
      have hx : x = c := by
        rw [← ht] at hhead
        exact Option.some.inj hhead
      subst hx
      refine ⟨by rw [← ht]; simp [kataConfigRestartServiceSchema], ?_, ?_⟩
      · rw [← utf8ByteSize_ascii (hascii hw)]
        exact hsize
      · refine mem_oneOf_comp.mpr ⟨x, v ++ unitSuffix.toList, ht.symm, hc, mem_comp.mpr
          ⟨v, mem_star_oneOf.mpr fun y hy => hw y ?_, _, mem_literal.mpr rfl, rfl⟩⟩
        rw [← ht]
        simp [hy]
  · intro hadmits
    obtain ⟨c, v, hcons, hc, hv⟩ := mem_oneOf_comp.mp hadmits.pattern
    obtain ⟨u, hu, suf, hsuf, rfl⟩ := mem_comp.mp hv
    rw [mem_literal.mp hsuf] at hcons
    have hw : ∀ x ∈ s.toList, x ∈ alphanumerics ++ ['@', '.', '_', '-'] := by
      rw [hcons]
      refine List.forall_mem_cons.mpr ⟨?_, List.forall_mem_append.mpr ⟨mem_star_oneOf.mp hu, ?_⟩⟩
      · have hmarks : ∀ x ∈ ['@', '.', '_'], x ∈ ['@', '.', '_', '-'] := by simp
        rcases List.mem_append.mp hc with hc | hc
        · exact List.mem_append_left _ hc
        · exact List.mem_append_right _ (hmarks c hc)
      · have hall : unitSuffix.toList.all (alphanumerics ++ ['@', '.', '_', '-']).contains = true := by
          decide +kernel
        exact fun x hx => List.contains_iff_mem.mp (List.all_eq_true.mp hall x hx)
    have hsize : ¬ maxUnitNameLen < s.utf8ByteSize := by
      rw [utf8ByteSize_ascii (hascii hw)]
      exact Nat.not_lt.mpr hadmits.max
    have hsuffix : Text.endsWith unitSuffix s = true := by
      refine List.isSuffixOf_iff_suffix.mpr ⟨c :: u, ?_⟩
      rw [hcons]
      rfl
    have hne : (s == unitSuffix) = false := by
      refine beq_eq_false_iff_ne.mpr fun heq => ?_
      rw [heq] at hcons
      have hlength := congrArg List.length hcons
      simp only [List.length_cons, List.length_append] at hlength
      have hsame : unitSuffix.toList.length = ".service".toList.length := rfl
      omega
    unfold isSystemdUnit
    rw [if_neg (by simp [hsize, hsuffix, hne]), if_neg (by rw [unitChars_iff.mpr hw]; decide)]
    exact unitHead_iff.mpr ⟨c, hc, by rw [hcons]; rfl⟩

end Checks

section RoundTrip

variable {json : Json.Reader} {r : KataRef} {kata : Machine.KataConfig}

/-- The agent accepts what the CRD admits, and of the names only those with short labels. -/
theorem validateFields_eq_ok_iff {r' : KataRef} :
    validateFields r = .ok r' ↔ r = r' ∧ r.Admitted ∧ ShortLabels r.name := by
  constructor
  · intro h
    unfold validateFields at h
    split at h
    · cases h
    rename_i hkind
    split at h
    · cases h
    rename_i hns
    split at h
    · cases h
    rename_i hname
    split at h
    · cases h
    rename_i hkey
    split at h
    · cases h
    rename_i hservice
    cases h
    rw [Bool.not_eq_true', Bool.not_eq_false] at hns hname hkey hservice
    obtain ⟨hadmits, hshort⟩ := isDnsSubdomain_iff.mp hname
    refine ⟨rfl, ⟨?_, isDnsLabel_iff_admits.mp hns, hadmits, isDataKey_iff.mp hkey,
      isSystemdUnit_iff.mp hservice⟩, hshort⟩
    simpa [bne_iff_ne, imp_iff_not_or] using hkind
  · rintro ⟨rfl, hadmitted, hshort⟩
    have hkind : ¬ (r.kind != kindConfigMap && r.kind != kindSecret) = true := by
      rcases hadmitted.kind with h | h <;> simp [h]
    unfold validateFields
    rw [if_neg hkind, if_neg (by simp [isDnsLabel_iff_admits.mpr hadmitted.ns]),
      if_neg (by simp [isDnsSubdomain_iff.mpr ⟨hadmitted.name, hshort⟩]),
      if_neg (by simp [isDataKey_iff.mpr hadmitted.key]),
      if_neg (by simp [isSystemdUnit_iff.mpr hadmitted.restartService])]

/-- What the agent reads from the annotation the controller prints. -/
theorem parseKataRef_kataRefValue :
    parseKataRef json (Machine.kataRefValue kata) = validateFields (.ofConfig kata) := by
  unfold parseKataRef Machine.kataRefValue
  rw [json.fromStr_renderObject (by simp)]
  rfl

theorem refAnnotation_eq {text : String}
    (h : ( Machine.kataConfigRefAnnotation, some text) ∈
      (Machine.buildKataConfigRefAnnotationPatch (some kata)).annotations) :
    text = Machine.kataRefValue kata := by
  cases List.mem_singleton.mp h
  rfl

/--
An admitted `spec.kata` is read back as it was written exactly when the labels of its name are short
enough, and every reference the agent accepts has values the CRD admits.
-/
theorem reference_survives_iff (json : Json.Reader) (kata : Machine.KataConfig) (text : String)
    (r : KataRef) :
    ((KataRef.ofConfig kata).Admitted →
      ( Machine.kataConfigRefAnnotation, some text) ∈
        (Machine.buildKataConfigRefAnnotationPatch (some kata)).annotations →
      (parseKataRef json text = .ok (.ofConfig kata) ↔ ShortLabels kata.name)) ∧
    (parseKataRef json text = .ok r → r.Admitted) := by
  constructor
  · intro hadmitted htext
    rw [refAnnotation_eq htext, parseKataRef_kataRefValue, validateFields_eq_ok_iff]
    exact ⟨fun h => h.2.2, fun hshort => ⟨rfl, hadmitted, hshort⟩⟩
  · intro h
    unfold parseKataRef at h
    split at h
    · cases h
    · obtain ⟨rfl, hadmitted, _⟩ := validateFields_eq_ok_iff.mp h
      exact hadmitted

def sampleKata : Machine.KataConfig where
  kind := .configMap
  name := "kata.example"
  ns := "5spot-system"
  key := "kata-containers.toml"
  restartService := "k0sworker.service"

theorem admitted_sampleKata : (KataRef.ofConfig sampleKata).Admitted := by
  have hok : validateFields (.ofConfig sampleKata) = .ok (.ofConfig sampleKata) := by decide +kernel
  exact (validateFields_eq_ok_iff.mp hok).2.1

theorem sample_reference_survives :
    parseKataRef Json.reader (Machine.kataRefValue sampleKata) = .ok (.ofConfig sampleKata) ∧
      (KataRef.ofConfig sampleKata).Admitted := by
  obtain ⟨hiff, haccepted⟩ := reference_survives_iff Json.reader sampleKata
    (Machine.kataRefValue sampleKata) (.ofConfig sampleKata)
  have hread : parseKataRef Json.reader (Machine.kataRefValue sampleKata) = .ok (.ofConfig sampleKata) :=
    (hiff admitted_sampleKata List.mem_cons_self).mpr (by decide +kernel)
  exact ⟨hread, haccepted hread⟩

def longName : Machine.KataConfig :=
  { sampleKata with name := String.ofList (List.replicate 64 'a') }

theorem admits_longName : kataConfigNameSchema.Admits longName.name := by
  have hsplit : Text.splitChars '.' longName.name.toList = [List.replicate 64 'a'] := by
    decide +kernel
  have hlabel : List.replicate 64 'a' ∈ labelPattern.matches' := by
    have ha : 'a' ∈ lowerDigits := by decide
    refine mem_labelPattern.mpr ⟨fun c hc => ?_, ⟨'a', ha, rfl⟩, ⟨'a', ha, by decide⟩⟩
    rw [List.eq_of_mem_replicate hc]
    exact List.mem_cons_of_mem _ ha
  refine ⟨by decide +kernel, by decide +kernel, (mem_separated fun _ => notMem_label).mpr ?_⟩
  rw [hsplit]
  simpa using hlabel

/-- The CRD admits the name, the controller prints it, and the agent refuses it. -/
theorem long_label_is_refused :
    (KataRef.ofConfig longName).Admitted ∧
      parseKataRef Json.reader (Machine.kataRefValue longName) =
        .error (.field "name" "must be an RFC-1123 subdomain" longName.name) := by
  refine ⟨⟨admitted_sampleKata.kind, admitted_sampleKata.ns, admits_longName,
    admitted_sampleKata.key, admitted_sampleKata.restartService⟩, ?_⟩
  rw [parseKataRef_kataRefValue]
  decide +kernel

end RoundTrip

end FiveSpot.Kata
