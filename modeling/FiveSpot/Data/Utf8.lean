import Mathlib.Data.List.Infix
import Mathlib.Tactic.Common

/-!
# Texts as bytes

The bytes of a text and the lossy reading of bytes as a text, as the Rust standard library has them.
Bytes survive the lossy reading exactly when they are the bytes of some text.
-/

namespace FiveSpot.Utf8

set_option autoImplicit false

abbrev Bytes := List UInt8

/-- `str::as_bytes`. -/
def asBytes (s : String) : Bytes := s.toList.flatMap String.utf8EncodeChar

theorem toListLoop_eq (bs : ByteArray) (i : Nat) (r : Bytes) :
    ByteArray.toList.loop bs i r = r.reverse ++ bs.data.toList.drop i := by
  fun_induction ByteArray.toList.loop bs i r with
  | case1 i r h ih =>
    have hi : i < bs.data.toList.length := h
    have hget : bs.get! i = bs.data.toList[i] := by
      have hindex : bs.get! i = bs.data[i]! := rfl
      rw [hindex, getElem!_pos bs.data i h, Array.getElem_toList]
    rw [ih, List.drop_eq_getElem_cons hi, List.reverse_cons, List.append_assoc, hget]
    rfl
  | case2 i r h =>
    have hi : bs.data.toList.length ≤ i := Nat.not_lt.mp h
    simp [List.drop_of_length_le hi]

theorem toByteArray_eq (s : String) : s.toByteArray = s.toList.utf8Encode := by
  rw [← String.toByteArray_ofList, String.ofList_toList]

theorem toList_toUTF8 (s : String) : s.toUTF8.toList = asBytes s := by
  rw [String.toUTF8, toByteArray_eq, ByteArray.toList, toListLoop_eq]
  simp [asBytes, List.utf8Encode]

theorem utf8ByteSize_eq (s : String) : s.utf8ByteSize = (asBytes s).length := by
  rw [← String.size_toByteArray, toByteArray_eq]
  simp [asBytes, List.utf8Encode]

theorem length_le_length_encode (cs : List Char) :
    cs.length ≤ (cs.flatMap String.utf8EncodeChar).length := by
  induction cs with
  | nil => exact Nat.le_refl 0
  | cons c cs ih =>
    have hpos := c.utf8Size_pos
    rw [List.flatMap_cons, List.length_append, List.length_cons, String.length_utf8EncodeChar]
    omega

theorem length_le_utf8ByteSize (s : String) : s.toList.length ≤ s.utf8ByteSize := by
  rw [utf8ByteSize_eq]
  exact length_le_length_encode s.toList

def isTail (b : UInt8) : Bool := 0x80 ≤ b.toNat && b.toNat ≤ 0xBF

/-- The second byte of three: no overlong forms and no surrogates. -/
def isSecondOfThree (a b : UInt8) : Bool :=
  if a.toNat = 0xE0 then 0xA0 ≤ b.toNat && b.toNat ≤ 0xBF
  else if a.toNat = 0xED then 0x80 ≤ b.toNat && b.toNat ≤ 0x9F
  else isTail b

/-- The second byte of four: no overlong forms and nothing above the last character. -/
def isSecondOfFour (a b : UInt8) : Bool :=
  if a.toNat = 0xF0 then 0x90 ≤ b.toNat && b.toNat ≤ 0xBF
  else if a.toNat = 0xF4 then 0x80 ≤ b.toNat && b.toNat ≤ 0x8F
  else isTail b

/-- Go on with the next byte if it is as expected; a byte that is not stays where it is. -/
def expect (ok : UInt8 → Bool) (bs : Bytes) (k : UInt8 → Bytes → Option Char × Bytes) :
    Option Char × Bytes :=
  match bs with
  | [] => (none, [])
  | b :: rest => if ok b then k b rest else (none, b :: rest)

/--
One step of `Utf8Chunks`, at a byte and what follows it: the character that starts there, or `none`
for the longest piece that could have been the start of one, and the bytes after it.
-/
def decodeFirst (a : UInt8) (rest : Bytes) : Option Char × Bytes :=
  if a.toNat < 0x80 then (some (.ofNat a.toNat), rest)
  else if 0xC2 ≤ a.toNat && a.toNat ≤ 0xDF then
    expect isTail rest fun b rest =>
      (some (.ofNat (a.toNat % 32 * 64 + b.toNat % 64)), rest)
  else if 0xE0 ≤ a.toNat && a.toNat ≤ 0xEF then
    expect (isSecondOfThree a) rest fun b rest => expect isTail rest fun c rest =>
      (some (.ofNat (a.toNat % 16 * 4096 + b.toNat % 64 * 64 + c.toNat % 64)), rest)
  else if 0xF0 ≤ a.toNat && a.toNat ≤ 0xF4 then
    expect (isSecondOfFour a) rest fun b rest => expect isTail rest fun c rest =>
      expect isTail rest fun d rest =>
        (some (.ofNat (a.toNat % 8 * 262144 + b.toNat % 64 * 4096 + c.toNat % 64 * 64 +
          d.toNat % 64)), rest)
  else (none, rest)

/-- `U+FFFD`. -/
def replacementCharacter : Char := Char.ofNat 0xFFFD

/-- The characters of at most `fuel` steps; each step takes at least one byte. -/
def lossyChars : Nat → Bytes → List Char
  | 0, _ => []
  | _ + 1, [] => []
  | fuel + 1, a :: rest =>
      (decodeFirst a rest).1.getD replacementCharacter :: lossyChars fuel (decodeFirst a rest).2

/-- `String::from_utf8_lossy`. -/
def fromUtf8Lossy (bs : Bytes) : String := .ofList (lossyChars bs.length bs)

example : asBytes (fromUtf8Lossy [0x61, 0xFF, 0xC3, 0xA9]) = [0x61, 0xEF, 0xBF, 0xBD, 0xC3, 0xA9] := by
  decide

section Decoding

variable {a b c d : UInt8} {rest : Bytes}

theorem expect_cons {ok : UInt8 → Bool} {k : UInt8 → Bytes → Option Char × Bytes}
    (hb : ok b = true) : expect ok (b :: rest) k = k b rest := by
  simp [expect, hb]

theorem isTail_iff : isTail b = true ↔ 0x80 ≤ b.toNat ∧ b.toNat ≤ 0xBF := by
  simp [isTail]

theorem decodeFirst_one (ha : a.toNat < 0x80) : decodeFirst a rest = (some (.ofNat a.toNat), rest) := by
  simp [decodeFirst, ha]

theorem decodeFirst_two (ha : 0xC2 ≤ a.toNat ∧ a.toNat ≤ 0xDF) (hb : isTail b = true) :
    decodeFirst a (b :: rest) = (some (.ofNat (a.toNat % 32 * 64 + b.toNat % 64)), rest) := by
  rw [decodeFirst, if_neg (by omega), if_pos (by simpa using ha), expect_cons hb]

theorem decodeFirst_three (ha : 0xE0 ≤ a.toNat ∧ a.toNat ≤ 0xEF)
    (hb : isSecondOfThree a b = true) (hc : isTail c = true) :
    decodeFirst a (b :: c :: rest) =
      (some (.ofNat (a.toNat % 16 * 4096 + b.toNat % 64 * 64 + c.toNat % 64)), rest) := by
  have htwo : ¬ (0xC2 ≤ a.toNat ∧ a.toNat ≤ 0xDF) := by omega
  rw [decodeFirst, if_neg (by omega), if_neg (by simpa using htwo), if_pos (by simpa using ha),
    expect_cons hb, expect_cons hc]

theorem decodeFirst_four (ha : 0xF0 ≤ a.toNat ∧ a.toNat ≤ 0xF4) (hb : isSecondOfFour a b = true)
    (hc : isTail c = true) (hd : isTail d = true) :
    decodeFirst a (b :: c :: d :: rest) =
      (some (.ofNat (a.toNat % 8 * 262144 + b.toNat % 64 * 4096 + c.toNat % 64 * 64 +
        d.toNat % 64)), rest) := by
  have htwo : ¬ (0xC2 ≤ a.toNat ∧ a.toNat ≤ 0xDF) := by omega
  have hthree : ¬ (0xE0 ≤ a.toNat ∧ a.toNat ≤ 0xEF) := by omega
  rw [decodeFirst, if_neg (by omega), if_neg (by simpa using htwo), if_neg (by simpa using hthree),
    if_pos (by simpa using ha), expect_cons hb, expect_cons hc, expect_cons hd]

theorem toNat_ofNat_of_lt {n : Nat} (h : n < 256) : (UInt8.ofNat n).toNat = n := by
  simp only [UInt8.toNat_ofNat']
  omega

theorem decodeFirst_encode {ch : Char} {tail : Bytes}
    (h : String.utf8EncodeChar ch ++ tail = a :: rest) : decodeFirst a rest = (some ch, tail) := by
  have hvalid : ch.toNat < 0xD800 ∨ 0xDFFF < ch.toNat ∧ ch.toNat < 0x110000 := ch.valid
  have hchar : Char.ofNat ch.toNat = ch := Char.ofNat_toNat ch
  simp only [String.utf8EncodeChar, show ch.val.toNat = ch.toNat from rfl] at h
  -- the four lengths of an encoding, shortest first
  split at h
  · obtain ⟨rfl, rfl⟩ := List.cons.inj h
    have ha : (UInt8.ofNat ch.toNat).toNat = ch.toNat := toNat_ofNat_of_lt (by omega)
    rw [decodeFirst_one (by omega), ha, hchar]
    rfl
  split at h
  · obtain ⟨rfl, rfl⟩ := List.cons.inj h
    have ha := toNat_ofNat_of_lt (n := ch.toNat / 64 % 32 + 192) (by omega)
    have hb := toNat_ofNat_of_lt (n := ch.toNat % 64 + 128) (by omega)
    refine (decodeFirst_two (by omega) (isTail_iff.mpr (by omega))).trans ?_
    have hcode : (ch.toNat / 64 % 32 + 192) % 32 * 64 + (ch.toNat % 64 + 128) % 64 = ch.toNat := by
      omega
    rw [ha, hb, hcode, hchar]
    rfl
  split at h
  · obtain ⟨rfl, rfl⟩ := List.cons.inj h
    have ha := toNat_ofNat_of_lt (n := ch.toNat / 4096 % 16 + 224) (by omega)
    have hb := toNat_ofNat_of_lt (n := ch.toNat / 64 % 64 + 128) (by omega)
    have hc := toNat_ofNat_of_lt (n := ch.toNat % 64 + 128) (by omega)
    have hsecond : isSecondOfThree (.ofNat (ch.toNat / 4096 % 16 + 224))
        (.ofNat (ch.toNat / 64 % 64 + 128)) = true := by
      unfold isSecondOfThree isTail
      rw [ha, hb]
      split
      · simp only [Bool.and_eq_true, decide_eq_true_eq]
        omega
      · split
        · simp only [Bool.and_eq_true, decide_eq_true_eq]
          omega
        · simp only [Bool.and_eq_true, decide_eq_true_eq]
          omega
    refine (decodeFirst_three (by omega) hsecond (isTail_iff.mpr (by omega))).trans ?_
    have hcode : (ch.toNat / 4096 % 16 + 224) % 16 * 4096 + (ch.toNat / 64 % 64 + 128) % 64 * 64 +
        (ch.toNat % 64 + 128) % 64 = ch.toNat := by
      omega
    rw [ha, hb, hc, hcode, hchar]
    rfl
  · obtain ⟨rfl, rfl⟩ := List.cons.inj h
    have ha := toNat_ofNat_of_lt (n := ch.toNat / 262144 % 8 + 240) (by omega)
    have hb := toNat_ofNat_of_lt (n := ch.toNat / 4096 % 64 + 128) (by omega)
    have hc := toNat_ofNat_of_lt (n := ch.toNat / 64 % 64 + 128) (by omega)
    have hd := toNat_ofNat_of_lt (n := ch.toNat % 64 + 128) (by omega)
    have hsecond : isSecondOfFour (.ofNat (ch.toNat / 262144 % 8 + 240))
        (.ofNat (ch.toNat / 4096 % 64 + 128)) = true := by
      unfold isSecondOfFour isTail
      rw [ha, hb]
      split
      · simp only [Bool.and_eq_true, decide_eq_true_eq]
        omega
      · split
        · simp only [Bool.and_eq_true, decide_eq_true_eq]
          omega
        · simp only [Bool.and_eq_true, decide_eq_true_eq]
          omega
    refine (decodeFirst_four (by omega) hsecond (isTail_iff.mpr (by omega))
      (isTail_iff.mpr (by omega))).trans ?_
    have hcode : (ch.toNat / 262144 % 8 + 240) % 8 * 262144 +
        (ch.toNat / 4096 % 64 + 128) % 64 * 4096 + (ch.toNat / 64 % 64 + 128) % 64 * 64 +
        (ch.toNat % 64 + 128) % 64 = ch.toNat := by
      omega
    rw [ha, hb, hc, hd, hcode, hchar]
    rfl

end Decoding

theorem lossyChars_encode {fuel : Nat} {cs : List Char} (h : cs.length ≤ fuel) :
    lossyChars fuel (cs.flatMap String.utf8EncodeChar) = cs := by
  induction cs generalizing fuel with
  | nil => cases fuel <;> rfl
  | cons c cs ih =>
    obtain ⟨fuel, rfl⟩ : ∃ n, fuel = n + 1 := ⟨fuel - 1, by simp at h; omega⟩
    obtain ⟨a, rest, hcons⟩ := List.exists_cons_of_ne_nil (String.utf8EncodeChar_ne_nil (c := c))
    have hstep : decodeFirst a (rest ++ cs.flatMap String.utf8EncodeChar) =
        (some c, cs.flatMap String.utf8EncodeChar) :=
      decodeFirst_encode (by rw [hcons, List.cons_append])
    rw [List.flatMap_cons, hcons, List.cons_append, lossyChars, hstep]
    simp only [Option.getD_some]
    rw [ih (by simpa using h)]

theorem fromUtf8Lossy_asBytes (s : String) : fromUtf8Lossy (asBytes s) = s := by
  have hchars : lossyChars (asBytes s).length (asBytes s) = s.toList :=
    lossyChars_encode (length_le_length_encode s.toList)
  rw [fromUtf8Lossy, hchars]
  exact String.ofList_toList

def IsUtf8 (bs : Bytes) : Prop := ∃ s, asBytes s = bs

theorem asBytes_fromUtf8Lossy_iff {bs : Bytes} : asBytes (fromUtf8Lossy bs) = bs ↔ IsUtf8 bs := by
  constructor
  · intro h
    exact ⟨fromUtf8Lossy bs, h⟩
  · rintro ⟨s, rfl⟩
    rw [fromUtf8Lossy_asBytes]

instance (bs : Bytes) : Decidable (IsUtf8 bs) := decidable_of_iff _ asBytes_fromUtf8Lossy_iff

/-- How many bytes a character has that starts with this one; none does if it is `0`. -/
def width (a : UInt8) : Nat :=
  if a.toNat < 0x80 then 1
  else if 0xC2 ≤ a.toNat && a.toNat ≤ 0xDF then 2
  else if 0xE0 ≤ a.toNat && a.toNat ≤ 0xEF then 3
  else if 0xF0 ≤ a.toNat && a.toNat ≤ 0xF4 then 4
  else 0

/-- The `Display` text of `Utf8Error`, for bytes that start at `index`. -/
def utf8Error : Nat → Nat → Bytes → String
  | 0, _, _ => ""
  | _ + 1, _, [] => ""
  | fuel + 1, index, a :: rest =>
      let next := (decodeFirst a rest).2
      let taken := (a :: rest).length - next.length
      if (decodeFirst a rest).1.isSome then utf8Error fuel (index + taken) next
      else if next.isEmpty && taken < width a then
        "incomplete utf-8 byte sequence from index " ++ toString index
      else "invalid utf-8 sequence of " ++ toString taken ++ " bytes from index " ++ toString index

/-- `str::from_utf8`. -/
def fromUtf8 (bs : Bytes) : Except String String :=
  if IsUtf8 bs then .ok (fromUtf8Lossy bs) else .error (utf8Error bs.length 0 bs)

theorem fromUtf8_eq_ok_iff {bs : Bytes} {s : String} : fromUtf8 bs = .ok s ↔ asBytes s = bs := by
  unfold fromUtf8
  constructor
  · intro h
    split at h
    · rename_i hbs
      cases h
      exact asBytes_fromUtf8Lossy_iff.mpr hbs
    · cases h
  · rintro rfl
    rw [if_pos ⟨s, rfl⟩, fromUtf8Lossy_asBytes]

section SingleByte

/-- `b as char`: the character with the number of the byte. -/
def asChar (b : UInt8) : Char := .ofNat b.toNat

theorem toNat_asChar (b : UInt8) : (asChar b).toNat = b.toNat := by
  have hvalid : b.toNat.isValidChar := .inl (Nat.lt_trans b.toNat_lt (by decide))
  rw [asChar, Char.ofNat, dif_pos hvalid]
  rfl

theorem asChar_ofNat {c : Char} (h : c.toNat < 256) : asChar (.ofNat c.toNat) = c := by
  rw [asChar, toNat_ofNat_of_lt h, Char.ofNat_toNat]

theorem asChar_injective : Function.Injective asChar := by
  intro b b' h
  apply UInt8.toNat_inj.mp
  rw [← toNat_asChar b, ← toNat_asChar b', h]

theorem map_asChar_infix_iff {part bs : Bytes} : part.map asChar <:+: bs.map asChar ↔ part <:+: bs := by
  constructor
  · intro h
    obtain ⟨part', hpart', heq⟩ := List.infix_map_iff.mp h
    rwa [List.map_injective_iff.mpr asChar_injective heq]
  · exact fun h => h.map asChar

theorem utf8EncodeChar_ascii {c : Char} (h : c.toNat < 128) :
    String.utf8EncodeChar c = [.ofNat c.toNat] := by
  have hle : c.val.toNat ≤ 127 := Nat.lt_succ_iff.mp h
  simp only [String.utf8EncodeChar, if_pos hle]
  rfl

/-- `c as u8`, for a character of ASCII. -/
def asByte (c : Char) : UInt8 := .ofNat c.toNat

theorem toNat_asByte {c : Char} (h : c.toNat < 128) : (asByte c).toNat = c.toNat :=
  toNat_ofNat_of_lt (by omega)

theorem encode_ascii {cs : List Char} (h : ∀ c ∈ cs, c.toNat < 128) :
    cs.flatMap String.utf8EncodeChar = cs.map asByte := by
  induction cs with
  | nil => rfl
  | cons c cs ih =>
    obtain ⟨hc, hcs⟩ := List.forall_mem_cons.mp h
    rw [List.flatMap_cons, utf8EncodeChar_ascii hc, ih hcs]
    rfl

theorem map_asChar_asBytes {s : String} (h : ∀ c ∈ s.toList, c.toNat < 128) :
    (asBytes s).map asChar = s.toList := by
  rw [asBytes, encode_ascii h, List.map_map]
  refine (List.map_congr_left fun c hc => ?_).trans (List.map_id _)
  exact asChar_ofNat (Nat.lt_trans (h c hc) (by decide))

theorem length_lt_length_asBytes {s : String} {c : Char} (hc : c ∈ s.toList) (h : 128 ≤ c.toNat) :
    s.toList.length < (asBytes s).length := by
  obtain ⟨before, after, hs⟩ := List.append_of_mem hc
  have hwide : c.utf8Size ≠ 1 := by
    intro hone
    have hval : c.toNat ≤ 127 := Char.utf8Size_eq_one_iff.mp hone
    omega
  have hpos := c.utf8Size_pos
  have hbefore := length_le_length_encode before
  have hafter := length_le_length_encode after
  rw [asBytes, hs, List.flatMap_append, List.flatMap_cons, List.length_append, List.length_append,
    List.length_append, List.length_cons, String.length_utf8EncodeChar]
  omega

theorem le_toNat_of_mem_utf8EncodeChar {c : Char} {b : UInt8} (h : 128 ≤ c.toNat)
    (hb : b ∈ String.utf8EncodeChar c) : 128 ≤ b.toNat := by
  have hbyte : ∀ n, n < 256 → 128 ≤ n → b = .ofNat n → 128 ≤ b.toNat := by
    rintro n hlt hle rfl
    rwa [toNat_ofNat_of_lt hlt]
  simp only [String.utf8EncodeChar, show c.val.toNat = c.toNat from rfl] at hb
  rw [if_neg (by omega)] at hb
  split at hb
  · simp only [List.mem_cons, List.not_mem_nil, or_false] at hb
    rcases hb with hb | hb
    · exact hbyte _ (by omega) (by omega) hb
    · exact hbyte _ (by omega) (by omega) hb
  split at hb
  · simp only [List.mem_cons, List.not_mem_nil, or_false] at hb
    rcases hb with hb | hb | hb
    · exact hbyte _ (by omega) (by omega) hb
    · exact hbyte _ (by omega) (by omega) hb
    · exact hbyte _ (by omega) (by omega) hb
  · simp only [List.mem_cons, List.not_mem_nil, or_false] at hb
    rcases hb with hb | hb | hb | hb
    · exact hbyte _ (by omega) (by omega) hb
    · exact hbyte _ (by omega) (by omega) hb
    · exact hbyte _ (by omega) (by omega) hb
    · exact hbyte _ (by omega) (by omega) hb

theorem zero_mem_asBytes_iff {s : String} : 0 ∈ asBytes s ↔ ∃ c ∈ s.toList, c.toNat = 0 := by
  rw [asBytes, List.mem_flatMap]
  constructor
  · rintro ⟨c, hc, h⟩
    refine ⟨c, hc, ?_⟩
    rcases Nat.lt_or_ge c.toNat 128 with hlt | hle
    · rw [utf8EncodeChar_ascii hlt, List.mem_singleton] at h
      rw [← toNat_ofNat_of_lt (show c.toNat < 256 by omega), ← h]
      rfl
    · exact absurd (le_toNat_of_mem_utf8EncodeChar hle h) (by decide)
  · rintro ⟨c, hc, h⟩
    refine ⟨c, hc, ?_⟩
    rw [utf8EncodeChar_ascii (by omega), h]
    exact List.mem_singleton.mpr rfl

end SingleByte

section ByteTests

/-- The test of a byte, asked of a character: only those of ASCII can pass it. -/
def onAscii (test : UInt8 → Bool) (c : Char) : Bool := c.toNat < 128 && test (.ofNat c.toNat)

variable {test : UInt8 → Bool} {c : Char} {b : UInt8}

theorem onAscii_of_lt (h : c.toNat < 128) : onAscii test c = test (.ofNat c.toNat) := by
  simp [onAscii, h]

theorem onAscii_of_le (h : 128 ≤ c.toNat) : onAscii test c = false := by
  simp [onAscii, Nat.not_lt.mpr h]

theorem onAscii_eq {test' : Char → Bool} (hascii : ∀ n < 128, test (.ofNat n) = test' (.ofNat n))
    (hlt : ∀ c, test' c = true → c.toNat < 128) (c : Char) : onAscii test c = test' c := by
  rcases Nat.lt_or_ge c.toNat 128 with h | h
  · rw [onAscii_of_lt h, hascii c.toNat h, Char.ofNat_toNat]
  · rw [onAscii_of_le h, eq_comm, Bool.eq_false_iff]
    exact fun hc => Nat.not_lt.mpr h (hlt c hc)

theorem onAscii_of_mem (htest : ∀ b : UInt8, 128 ≤ b.toNat → test b = false)
    (hb : b ∈ String.utf8EncodeChar c) : onAscii test c = test b := by
  rcases Nat.lt_or_ge c.toNat 128 with hlt | hle
  · rw [utf8EncodeChar_ascii hlt, List.mem_singleton] at hb
    rw [onAscii_of_lt hlt, hb]
  · rw [onAscii_of_le hle, htest b (le_toNat_of_mem_utf8EncodeChar hle hb)]

theorem all_asBytes (htest : ∀ b : UInt8, 128 ≤ b.toNat → test b = false) (s : String) :
    (asBytes s).all test = s.toList.all (onAscii test) := by
  rw [Bool.eq_iff_iff, List.all_eq_true, List.all_eq_true, asBytes]
  constructor
  · intro hall c hc
    obtain ⟨b, rest, hcons⟩ := List.exists_cons_of_ne_nil (String.utf8EncodeChar_ne_nil (c := c))
    have hb : b ∈ String.utf8EncodeChar c := by rw [hcons]; exact List.mem_cons_self
    rw [onAscii_of_mem htest hb]
    exact hall b (List.mem_flatMap.mpr ⟨c, hc, hb⟩)
  · intro hall b hb
    obtain ⟨c, hc, hb⟩ := List.mem_flatMap.mp hb
    rw [← onAscii_of_mem htest hb]
    exact hall c hc

theorem any_head?_asBytes (htest : ∀ b : UInt8, 128 ≤ b.toNat → test b = false) (s : String) :
    (asBytes s).head?.any test = s.toList.head?.any (onAscii test) := by
  unfold asBytes
  cases s.toList with
  | nil => rfl
  | cons c cs =>
    obtain ⟨b, rest, hcons⟩ := List.exists_cons_of_ne_nil (String.utf8EncodeChar_ne_nil (c := c))
    have hb : b ∈ String.utf8EncodeChar c := by rw [hcons]; exact List.mem_cons_self
    rw [List.flatMap_cons, hcons, List.cons_append, List.head?_cons, List.head?_cons, Option.any_some,
      Option.any_some, onAscii_of_mem htest hb]

theorem any_getLast?_asBytes (htest : ∀ b : UInt8, 128 ≤ b.toNat → test b = false) (s : String) :
    (asBytes s).getLast?.any test = s.toList.getLast?.any (onAscii test) := by
  unfold asBytes
  rcases List.eq_nil_or_concat s.toList with hnil | ⟨cs, c, hconcat⟩
  · rw [hnil]
    rfl
  · obtain ⟨bs, b, hb⟩ := (List.eq_nil_or_concat (String.utf8EncodeChar c)).resolve_left
      String.utf8EncodeChar_ne_nil
    have hmem : b ∈ String.utf8EncodeChar c := by simp [hb]
    rw [hconcat, List.concat_eq_append, List.flatMap_append, List.flatMap_singleton, hb,
      List.concat_eq_append, ← List.append_assoc, List.getLast?_concat, List.getLast?_concat,
      Option.any_some, Option.any_some, onAscii_of_mem htest hmem]

end ByteTests

end FiveSpot.Utf8
