import Mathlib.Computability.RegularExpressions
import FiveSpot.Data.Text

/-!
# Patterns of texts

Regular expressions over ranges of characters, as the string schemas of an API use them, and what
the usual shapes match: words that begin and end in one class, and such words with separators.
-/

namespace FiveSpot.Pattern

set_option autoImplicit false

open RegularExpression

/-- `[first-last]`. -/
def charRange (first last : Char) : List Char :=
  (List.range (last.toNat + 1 - first.toNat)).map fun i => Char.ofNat (first.toNat + i)

def oneOf (cs : List Char) : RegularExpression Char := cs.foldr (fun c r => .char c + r) 0

def optional (r : RegularExpression Char) : RegularExpression Char := 1 + r

def literal (s : String) : RegularExpression Char := s.toList.foldr (fun c r => .char c * r) 1

/-- `[ends]([inner]*[ends])?`. -/
def bounded (ends inner : List Char) : RegularExpression Char :=
  oneOf ends * optional ((oneOf inner).star * oneOf ends)

/-- `r(c r)*`. -/
def separated (c : Char) (r : RegularExpression Char) : RegularExpression Char :=
  r * (.char c * r : RegularExpression Char).star

/-- `r{0,n}`. -/
def upTo : Nat → RegularExpression Char → RegularExpression Char
  | 0, _ => 1
  | n + 1, r => optional (r * upTo n r)

/-- `r(c r){0,n}`. -/
def separatedUpTo (n : Nat) (c : Char) (r : RegularExpression Char) : RegularExpression Char :=
  r * upTo n (.char c * r)

/-- The schema of a text: its length in characters and the pattern the whole of it matches. -/
structure StringSchema where
  minLength : Nat
  maxLength : Nat
  pattern : RegularExpression Char

structure StringSchema.Admits (schema : StringSchema) (s : String) : Prop where
  min : schema.minLength ≤ s.toList.length
  max : s.toList.length ≤ schema.maxLength
  pattern : s.toList ∈ schema.pattern.matches'

/-- The schema of a list of texts: how many, and their lengths in characters. -/
structure ListSchema where
  maxItems : Nat
  minLength : Nat
  maxLength : Nat

structure ListSchema.Admits (schema : ListSchema) (items : List String) : Prop where
  count : items.length ≤ schema.maxItems
  min : ∀ item ∈ items, schema.minLength ≤ item.toList.length
  max : ∀ item ∈ items, item.toList.length ≤ schema.maxLength

theorem isEmpty_eq_false_of_mem {s : String} {c : Char} (h : c ∈ s.toList) : s.isEmpty = false := by
  cases hempty : s.isEmpty with
  | false => rfl
  | true =>
    rw [String.isEmpty_iff.mp hempty] at h
    cases h

theorem StringSchema.Admits.isEmpty_eq_false {schema : StringSchema} {s : String}
    (h : schema.Admits s) (hmin : 0 < schema.minLength) : s.isEmpty = false := by
  obtain ⟨c, hc⟩ := List.exists_mem_of_length_pos (Nat.lt_of_lt_of_le hmin h.min)
  exact isEmpty_eq_false_of_mem hc

section Matching

variable {w : List Char} {cs ends inner : List Char} {c : Char} {r : RegularExpression Char}

theorem toNat_ofNat_of_valid {n : Nat} (h : n.isValidChar) : (Char.ofNat n).toNat = n := by
  unfold Char.ofNat
  rw [dif_pos h]
  rfl

theorem mem_charRange {first last : Char} (hlast : last.toNat < 0xD800) :
    c ∈ charRange first last ↔ first.toNat ≤ c.toNat ∧ c.toNat ≤ last.toNat := by
  simp only [charRange, List.mem_map, List.mem_range]
  constructor
  · rintro ⟨i, hi, rfl⟩
    have hvalid : (first.toNat + i).isValidChar := .inl (by omega)
    rw [toNat_ofNat_of_valid hvalid]
    omega
  · rintro ⟨hfirst, hle⟩
    refine ⟨c.toNat - first.toNat, by omega, ?_⟩
    rw [Nat.add_sub_cancel' hfirst, Char.ofNat_toNat]

theorem mem_oneOf : w ∈ (oneOf cs).matches' ↔ ∃ c ∈ cs, w = [c] := by
  induction cs with
  | nil => simp [oneOf]
  | cons a cs ih =>
    change w ∈ (RegularExpression.char a + oneOf cs).matches' ↔ _
    rw [matches'_add, Language.mem_add, ih, matches'_char]
    change (w = [a] ∨ _) ↔ _
    simp

theorem mem_star_oneOf : w ∈ (oneOf cs).star.matches' ↔ ∀ c ∈ w, c ∈ cs := by
  rw [matches'_star, Language.mem_kstar]
  constructor
  · rintro ⟨words, rfl, hwords⟩ c hc
    obtain ⟨word, hword, hc⟩ := List.mem_flatten.mp hc
    obtain ⟨a, ha, rfl⟩ := mem_oneOf.mp (hwords word hword)
    rw [List.mem_singleton.mp hc]
    exact ha
  · intro hall
    refine ⟨w.map fun c => [c], ?_, ?_⟩
    · induction w with
      | nil => rfl
      | cons c w ih =>
        rw [List.map_cons, List.flatten_cons, ← ih fun c hc => hall c (List.mem_cons_of_mem _ hc)]
        rfl
    · intro word hword
      obtain ⟨c, hc, rfl⟩ := List.mem_map.mp hword
      exact mem_oneOf.mpr ⟨c, hall c hc, rfl⟩

theorem mem_optional : w ∈ (optional r).matches' ↔ w = [] ∨ w ∈ r.matches' := by
  rw [optional, matches'_add, Language.mem_add, matches'_epsilon, Language.mem_one]

theorem mem_comp {r' : RegularExpression Char} :
    w ∈ (r * r').matches' ↔ ∃ u ∈ r.matches', ∃ v ∈ r'.matches', u ++ v = w := by
  rw [matches'_mul, Language.mem_mul]

theorem mem_literal {s : String} : w ∈ (literal s).matches' ↔ w = s.toList := by
  unfold literal
  induction s.toList generalizing w with
  | nil => simp
  | cons c cs ih =>
    rw [List.foldr_cons, mem_comp]
    constructor
    · rintro ⟨u, hu, v, hv, rfl⟩
      rw [ih.mp hv, Set.mem_singleton_iff.mp hu]
      rfl
    · rintro rfl
      exact ⟨[c], rfl, cs, ih.mpr rfl, rfl⟩

theorem mem_oneOf_comp : w ∈ (oneOf cs * r).matches' ↔ ∃ c v, w = c :: v ∧ c ∈ cs ∧ v ∈ r.matches' := by
  rw [mem_comp]
  constructor
  · rintro ⟨u, hu, v, hv, rfl⟩
    obtain ⟨c, hc, rfl⟩ := mem_oneOf.mp hu
    exact ⟨c, v, rfl, hc, hv⟩
  · rintro ⟨c, v, rfl, hc, hv⟩
    exact ⟨[c], mem_oneOf.mpr ⟨c, hc, rfl⟩, v, hv, rfl⟩

theorem mem_bounded (hsub : ends ⊆ inner) :
    w ∈ (bounded ends inner).matches' ↔
      (∀ c ∈ w, c ∈ inner) ∧ (∃ c ∈ ends, w.head? = some c) ∧ ∃ c ∈ ends, w.getLast? = some c := by
  rw [bounded, mem_comp]
  constructor
  · rintro ⟨u, hu, v, hv, rfl⟩
    obtain ⟨a, ha, rfl⟩ := mem_oneOf.mp hu
    rcases mem_optional.mp hv with rfl | hv
    · exact ⟨by simpa using hsub ha, ⟨a, ha, rfl⟩, ⟨a, ha, rfl⟩⟩
    · obtain ⟨mid, hmid, z, hz, rfl⟩ := mem_comp.mp hv
      obtain ⟨b, hb, rfl⟩ := mem_oneOf.mp hz
      refine ⟨fun c hc => ?_, ⟨a, ha, rfl⟩, ⟨b, hb, List.getLast?_concat (l := a :: mid)⟩⟩
      simp only [List.singleton_append, List.mem_cons, List.mem_append, List.not_mem_nil, or_false]
        at hc
      rcases hc with rfl | hc | rfl
      · exact hsub ha
      · exact mem_star_oneOf.mp hmid c hc
      · exact hsub hb
  · rintro ⟨hall, ⟨a, ha, hhead⟩, ⟨b, hb, hlast⟩⟩
    obtain ⟨rest, rfl⟩ : ∃ rest, w = a :: rest := List.head?_eq_some_iff.mp hhead
    refine ⟨[a], mem_oneOf.mpr ⟨a, ha, rfl⟩, rest, mem_optional.mpr ?_, rfl⟩
    rcases List.eq_nil_or_concat rest with rfl | ⟨mid, z, rfl⟩
    · exact .inl rfl
    · right
      rw [List.concat_eq_append] at hlast ⊢
      have hz : some z = some b := (List.getLast?_concat (l := a :: mid)).symm.trans hlast
      cases hz
      refine mem_comp.mpr ⟨mid, mem_star_oneOf.mpr fun c hc => hall c ?_, [b],
        mem_oneOf.mpr ⟨b, hb, rfl⟩, rfl⟩
      simp [hc]

end Matching

section Classes

variable {c : Char}

theorem isLower_iff : c.isLower = true ↔ c ∈ charRange 'a' 'z' := by
  have heq : c.isLower = (decide ('a'.val ≤ c.val) && decide (c.val ≤ 'z'.val)) := rfl
  rw [mem_charRange (by decide), heq, Bool.and_eq_true, decide_eq_true_eq, decide_eq_true_eq]
  simp only [UInt32.le_iff_toNat_le]
  exact Iff.rfl

theorem isUpper_iff : c.isUpper = true ↔ c ∈ charRange 'A' 'Z' := by
  have heq : c.isUpper = decide ('A'.val ≤ c.val ∧ c.val ≤ 'Z'.val) := rfl
  rw [mem_charRange (by decide), heq, decide_eq_true_eq]
  simp only [UInt32.le_iff_toNat_le]
  exact Iff.rfl

theorem isDigit_iff : c.isDigit = true ↔ c ∈ charRange '0' '9' := by
  rw [mem_charRange (by decide)]
  simp only [Char.isDigit, ge_iff_le, Bool.and_eq_true, decide_eq_true_eq, UInt32.le_iff_toNat_le]
  exact Iff.rfl

theorem isAlphanum_eq : c.isAlphanum = ((c.isUpper || c.isLower) || c.isDigit) := rfl

theorem toNat_lt_of_isAlphanum (h : c.isAlphanum = true) : c.toNat < 128 := by
  have hZ : 'Z'.toNat = 90 := rfl
  have hz : 'z'.toNat = 122 := rfl
  have h9 : '9'.toNat = 57 := rfl
  simp only [isAlphanum_eq, Bool.or_eq_true, isUpper_iff, isLower_iff, isDigit_iff,
    mem_charRange (show 'Z'.toNat < 0xD800 by decide),
    mem_charRange (show 'z'.toNat < 0xD800 by decide),
    mem_charRange (show '9'.toNat < 0xD800 by decide)] at h
  omega

end Classes

section Bytes

variable {s : String}

theorem utf8Size_ascii {c : Char} (h : c.toNat < 128) : c.utf8Size = 1 := by
  have hle : c.val ≤ 0x7F := by
    rw [UInt32.le_iff_toNat_le]
    exact Nat.lt_succ_iff.mp h
  simp [Char.utf8Size, hle]

theorem utf8ByteSize_ascii (h : ∀ c ∈ s.toList, c.toNat < 128) :
    s.utf8ByteSize = s.toList.length := by
  suffices general : ∀ cs : List Char, (∀ c ∈ cs, c.toNat < 128) →
      (String.ofList cs).utf8ByteSize = cs.length by
    have hs := general s.toList h
    rwa [String.ofList_toList] at hs
  intro cs
  induction cs with
  | nil => exact fun _ => rfl
  | cons c cs ih =>
    intro hcs
    have hsplit : String.ofList (c :: cs) = String.singleton c ++ String.ofList cs := by simp
    rw [hsplit, String.utf8ByteSize_append, String.utf8ByteSize_singleton,
      utf8Size_ascii (hcs c List.mem_cons_self), ih fun c hc => hcs c (List.mem_cons_of_mem _ hc),
      List.length_cons]
    omega

end Bytes

section Separating

variable {c : Char} {w : List Char} {r : RegularExpression Char}

open Text

theorem mem_separated (hr : ∀ word ∈ r.matches', c ∉ word) :
    w ∈ (separated c r).matches' ↔ ∀ part ∈ splitChars c w, part ∈ r.matches' := by
  rw [separated, mem_comp]
  constructor
  · rintro ⟨u, hu, v, hv, rfl⟩
    rw [matches'_star, Language.mem_kstar] at hv
    obtain ⟨words, rfl, hwords⟩ := hv
    induction words generalizing u with
    | nil => simpa [splitChars_of_notMem (hr u hu)] using hu
    | cons word words ih =>
      obtain ⟨s, hs, v, hv, rfl⟩ := mem_comp.mp (hwords word List.mem_cons_self)
      rw [Set.mem_singleton_iff.mp hs, List.flatten_cons]
      intro part hpart
      rw [List.append_assoc, List.singleton_append, splitChars_append (hr u hu)] at hpart
      rcases List.mem_cons.mp hpart with rfl | hpart
      · exact hu
      · exact ih v hv (fun y hy => hwords y (List.mem_cons_of_mem _ hy)) part hpart
  · intro hall
    obtain ⟨part, parts, hsplit⟩ := List.exists_cons_of_ne_nil (splitChars_ne_nil c w)
    rw [hsplit] at hall
    refine ⟨part, hall part List.mem_cons_self, parts.flatMap fun p => c :: p, ?_,
      (eq_of_splitChars hsplit).symm⟩
    rw [matches'_star, Language.mem_kstar]
    refine ⟨parts.map fun p => c :: p, rfl, fun word hword => ?_⟩
    obtain ⟨p, hp, rfl⟩ := List.mem_map.mp hword
    exact mem_comp.mpr ⟨[c], rfl, p, hall p (List.mem_cons_of_mem _ hp), rfl⟩

theorem forall_of_mem_separated {P : Char → Prop} (hr : ∀ word ∈ r.matches', ∀ a ∈ word, P a)
    (hc : P c) (hw : w ∈ (separated c r).matches') : ∀ a ∈ w, P a := by
  obtain ⟨u, hu, v, hv, rfl⟩ := mem_comp.mp hw
  rw [matches'_star, Language.mem_kstar] at hv
  obtain ⟨words, rfl, hwords⟩ := hv
  intro a ha
  rcases List.mem_append.mp ha with ha | ha
  · exact hr u hu a ha
  · obtain ⟨word, hword, ha⟩ := List.mem_flatten.mp ha
    obtain ⟨sep, hsep, part, hpart, rfl⟩ := mem_comp.mp (hwords word hword)
    rcases List.mem_append.mp ha with ha | ha
    · rw [Set.mem_singleton_iff.mp hsep] at ha
      rwa [List.mem_singleton.mp ha]
    · exact hr part hpart a ha

theorem matches'_separatedUpTo_zero : (separatedUpTo 0 c r).matches' = r.matches' := by
  rw [separatedUpTo, upTo, matches'_mul, matches'_epsilon, mul_one]

theorem mem_separatedUpTo_succ {n : Nat} : w ∈ (separatedUpTo (n + 1) c r).matches' ↔
    w ∈ r.matches' ∨
      ∃ u ∈ r.matches', ∃ rest ∈ (separatedUpTo n c r).matches', w = u ++ c :: rest := by
  rw [separatedUpTo, upTo, mem_comp]
  constructor
  · rintro ⟨u, hu, v, hv, rfl⟩
    rcases mem_optional.mp hv with rfl | hv
    · left
      rwa [List.append_nil]
    · right
      obtain ⟨cu, hcu, v', hv', rfl⟩ := mem_comp.mp hv
      obtain ⟨s, hs, u', hu', rfl⟩ := mem_comp.mp hcu
      refine ⟨u, hu, u' ++ v', mem_comp.mpr ⟨u', hu', v', hv', rfl⟩, ?_⟩
      rw [Set.mem_singleton_iff.mp hs, List.append_assoc, List.singleton_append]
  · rintro (hw | ⟨u, hu, rest, hrest, rfl⟩)
    · exact ⟨w, hw, [], mem_optional.mpr (.inl rfl), List.append_nil w⟩
    · obtain ⟨u', hu', v, hv, rfl⟩ := mem_comp.mp hrest
      have hcu : c :: u' ∈ (char c * r).matches' := mem_comp.mpr ⟨[c], rfl, u', hu', rfl⟩
      exact ⟨u, hu, c :: (u' ++ v),
        mem_optional.mpr (.inr (mem_comp.mpr ⟨c :: u', hcu, v, hv, rfl⟩)), rfl⟩

theorem eq_of_splitChars_eq_singleton {part : List Char} (h : splitChars c w = [part]) : w = part := by
  simpa using eq_of_splitChars h

theorem split_of_part {n : Nat} (hw : w ∈ r.matches') (hc : c ∉ w) :
    (splitChars c w).length ≤ n + 1 ∧ ∀ part ∈ splitChars c w, part ∈ r.matches' := by
  rw [splitChars_of_notMem hc]
  exact ⟨Nat.succ_le_succ (Nat.zero_le n), by simpa using hw⟩

theorem mem_separatedUpTo (hr : ∀ word ∈ r.matches', c ∉ word) (n : Nat) :
    w ∈ (separatedUpTo n c r).matches' ↔
      (splitChars c w).length ≤ n + 1 ∧ ∀ part ∈ splitChars c w, part ∈ r.matches' := by
  induction n generalizing w with
  | zero =>
    rw [matches'_separatedUpTo_zero]
    refine ⟨fun hw => split_of_part hw (hr w hw), fun ⟨hlength, hall⟩ => ?_⟩
    obtain ⟨part, hsplit⟩ : ∃ part, splitChars c w = [part] :=
      List.length_eq_one_iff.mp
        (Nat.le_antisymm hlength (List.length_pos_of_ne_nil (splitChars_ne_nil c w)))
    rw [eq_of_splitChars_eq_singleton hsplit]
    exact hall part (by simp [hsplit])
  | succ n ih =>
    rw [mem_separatedUpTo_succ]
    constructor
    · rintro (hw | ⟨u, hu, rest, hrest, rfl⟩)
      · exact split_of_part hw (hr w hw)
      · obtain ⟨hlength, hall⟩ := ih.mp hrest
        rw [splitChars_append (hr u hu)]
        exact ⟨Nat.succ_le_succ hlength, List.forall_mem_cons.mpr ⟨hu, hall⟩⟩
    · rintro ⟨hlength, hall⟩
      obtain ⟨part, parts, hsplit⟩ := List.exists_cons_of_ne_nil (splitChars_ne_nil c w)
      have hpart : part ∈ r.matches' := hall part (by simp [hsplit])
      cases parts with
      | nil =>
        left
        rwa [eq_of_splitChars_eq_singleton hsplit]
      | cons next parts =>
        right
        obtain ⟨rest, rfl, hrest⟩ := splitChars_cons_cons (hr part hpart) hsplit
        rw [hsplit] at hlength hall
        refine ⟨part, hpart, rest, ih.mpr ?_, rfl⟩
        rw [hrest]
        exact ⟨Nat.le_of_succ_le_succ hlength, fun p hp => hall p (List.mem_cons_of_mem _ hp)⟩

end Separating

end FiveSpot.Pattern
