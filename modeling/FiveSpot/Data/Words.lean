import Mathlib.Data.Nat.Digits.Defs
import FiveSpot.Data.Text
import FiveSpot.Data.Utf8

/-!
# Bytes and words

Slices of bytes, little-endian words, and numbers of 64 bits that are checked for overflow, as the Rust
standard library has them. What panics there is `none` here.
-/

namespace FiveSpot.Words

set_option autoImplicit false

open Utf8

/-- `&bytes[i..j]`. -/
def slice (bs : Bytes) (i j : Nat) : Option Bytes :=
  if i ≤ j ∧ j ≤ bs.length then some ((bs.take j).drop i) else none

def ofLe (bs : Bytes) : Nat := Nat.ofDigits 256 (bs.map UInt8.toNat)

/-- `from_le_bytes` of a word of `w` bytes; a slice of another length does not become one. -/
def fromLeBytes (w : Nat) (bs : Bytes) : Option Nat := if bs.length = w then some (ofLe bs) else none

/-- `from_le_bytes(bytes[i..j].try_into().unwrap())`. -/
def readLe (w : Nat) (bs : Bytes) (i j : Nat) : Option Nat := (slice bs i j).bind (fromLeBytes w)

def toLe : Nat → Nat → Bytes
  | 0, _ => []
  | w + 1, n => .ofNat n :: toLe w (n / 256)

/-- `to_le_bytes`. -/
def toLeBytes {n : Nat} (x : BitVec n) : Bytes := toLe (n / 8) x.toNat

section Slices

theorem slice_append {before part after : Bytes} {i j : Nat} (hi : before.length = i)
    (hj : i + part.length = j) : slice (before ++ (part ++ after)) i j = some part := by
  subst hi hj
  rw [slice, if_pos]
  · rw [List.take_append, List.take_of_length_le (Nat.le_add_right _ _), Nat.add_sub_cancel_left,
      List.take_left, List.drop_left]
  · simp only [List.length_append]
    omega

end Slices

section LittleEndian

@[simp] theorem length_toLe (w n : Nat) : (toLe w n).length = w := by
  induction w generalizing n with
  | zero => rfl
  | succ w ih => rw [toLe, List.length_cons, ih]

theorem ofLe_cons (b : UInt8) (bs : Bytes) : ofLe (b :: bs) = b.toNat + 256 * ofLe bs := by
  rw [ofLe, List.map_cons, Nat.ofDigits_cons]
  rfl

theorem ofLe_toLe {w n : Nat} (h : n < 256 ^ w) : ofLe (toLe w n) = n := by
  induction w generalizing n with
  | zero =>
    rw [Nat.pow_zero, Nat.lt_one_iff] at h
    rw [h]
    rfl
  | succ w ih =>
    have hrest : n / 256 < 256 ^ w := by
      rw [Nat.pow_succ] at h
      omega
    rw [toLe, ofLe_cons, ih hrest, UInt8.toNat_ofNat']
    omega

theorem ofLe_lt (bs : Bytes) : ofLe bs < 256 ^ bs.length := by
  have hdigits : ∀ d ∈ bs.map UInt8.toNat, d < 256 := by
    intro d hd
    obtain ⟨b, _, rfl⟩ := List.mem_map.mp hd
    exact b.toNat_lt
  have hlt := Nat.ofDigits_lt_base_pow_length (by decide) hdigits
  rwa [List.length_map] at hlt

theorem toLe_ofLe (bs : Bytes) : toLe bs.length (ofLe bs) = bs := by
  induction bs with
  | nil => rfl
  | cons b bs ih =>
    have hb := b.toNat_lt
    have hfirst : UInt8.ofNat (b.toNat + 256 * ofLe bs) = b := by
      apply UInt8.toNat_inj.mp
      rw [UInt8.toNat_ofNat']
      omega
    have hrest : (b.toNat + 256 * ofLe bs) / 256 = ofLe bs := by omega
    rw [List.length_cons, toLe, ofLe_cons, hfirst, hrest, ih]

end LittleEndian

section Fixed

variable {n : Nat}

@[simp] theorem length_toLeBytes (x : BitVec n) : (toLeBytes x).length = n / 8 := length_toLe _ _

theorem two_pow_eq (hn : 8 ∣ n) : 2 ^ n = 256 ^ (n / 8) := by
  obtain ⟨w, rfl⟩ := hn
  rw [Nat.mul_div_cancel_left w (by decide), Nat.pow_mul]

theorem fromLeBytes_toLeBytes (hn : 8 ∣ n) (x : BitVec n) :
    fromLeBytes (n / 8) (toLeBytes x) = some x.toNat := by
  rw [fromLeBytes, if_pos (length_toLeBytes x), toLeBytes, ofLe_toLe]
  rw [← two_pow_eq hn]
  exact x.isLt

theorem readLe_append (hn : 8 ∣ n) {before after : Bytes} {x : BitVec n} {w i j : Nat} (hw : n / 8 = w)
    (hi : before.length = i) (hj : i + w = j) :
    readLe w (before ++ (toLeBytes x ++ after)) i j = some x.toNat := by
  subst hw
  rw [readLe, slice_append hi (by rw [length_toLeBytes, hj]), Option.bind_some, fromLeBytes_toLeBytes hn]

theorem exists_toLeBytes (hn : 8 ∣ n) {bs : Bytes} (h : n / 8 ≤ bs.length) :
    ∃ (x : BitVec n) (rest : Bytes), bs = toLeBytes x ++ rest := by
  have hlength : (bs.take (n / 8)).length = n / 8 := List.length_take_of_le h
  have hlt : ofLe (bs.take (n / 8)) < 2 ^ n := by
    have hbytes := ofLe_lt (bs.take (n / 8))
    rwa [hlength, ← two_pow_eq hn] at hbytes
  refine ⟨.ofNat n (ofLe (bs.take (n / 8))), bs.drop (n / 8), ?_⟩
  rw [toLeBytes, BitVec.toNat_ofNat, Nat.mod_eq_of_lt hlt]
  have hword := toLe_ofLe (bs.take (n / 8))
  rw [hlength] at hword
  rw [hword, List.take_append_drop]

end Fixed

section Splitting

/-- `str::is_char_boundary`. -/
def isCharBoundary (bs : Bytes) (i : Nat) : Bool :=
  i == 0 || i == bs.length || bs[i]?.any fun b => !isTail b

/-- `str::split_at`. -/
def splitAt (bs : Bytes) (mid : Nat) : Option (Bytes × Bytes) :=
  if isCharBoundary bs mid then some (bs.take mid, bs.drop mid) else none

theorem splitAt_concat (bs : Bytes) {b : UInt8} (hb : b.toNat < 128) :
    splitAt (bs ++ [b]) bs.length = some (bs, [b]) := by
  have htail : isTail b = false := by
    rw [← Bool.not_eq_true, isTail_iff]
    omega
  have hboundary : isCharBoundary (bs ++ [b]) bs.length = true := by
    simp [isCharBoundary, htail]
  rw [splitAt, if_pos hboundary, List.take_left, List.drop_left]

end Splitting

section Checked

/-- `u64::checked_mul`. -/
def checkedMul (x y : UInt64) : Option UInt64 :=
  if x.toNat * y.toNat < UInt64.size then some (x * y) else none

/-- `u64::checked_add`. -/
def checkedAdd (x y : UInt64) : Option UInt64 :=
  if x.toNat + y.toNat < UInt64.size then some (x + y) else none

theorem checkedMul_eq_some_iff {x y z : UInt64} :
    checkedMul x y = some z ↔ x.toNat * y.toNat = z.toNat := by
  unfold checkedMul
  split
  · rename_i hlt
    rw [Option.some.injEq, ← UInt64.toNat_inj, UInt64.toNat_mul, Nat.mod_eq_of_lt hlt]
  · rename_i hge
    exact iff_of_false (nomatch ·) fun heq => hge (heq ▸ z.toNat_lt)

theorem checkedAdd_eq_some_iff {x y z : UInt64} :
    checkedAdd x y = some z ↔ x.toNat + y.toNat = z.toNat := by
  unfold checkedAdd
  split
  · rename_i hlt
    rw [Option.some.injEq, ← UInt64.toNat_inj, UInt64.toNat_add, Nat.mod_eq_of_lt hlt]
  · rename_i hge
    exact iff_of_false (nomatch ·) fun heq => hge (heq ▸ z.toNat_lt)

end Checked

section Decimal

/-- `char::to_digit` at 10. -/
def toDigit (b : UInt8) : Option UInt64 :=
  if 48 ≤ b.toNat ∧ b.toNat ≤ 57 then some (.ofNat (b.toNat - 48)) else none

def parseDigits (acc : UInt64) : Bytes → Option UInt64
  | [] => some acc
  | b :: bs => do
      let scaled ← checkedMul acc 10
      let digit ← toDigit b
      let acc ← checkedAdd scaled digit
      parseDigits acc bs

/-- `u64::from_str`, byte by byte. -/
def parseU64 : Bytes → Option UInt64
  | [] => none
  | b :: digits =>
      if (b == 43 || b == 45) && digits.isEmpty then none
      else if b == 43 then parseDigits 0 digits
      else parseDigits 0 (b :: digits)

def digitsFrom (n : Nat) (cs : List Char) : Nat := cs.foldl (fun n c => 10 * n + (c.toNat - '0'.toNat)) n

theorem le_digitsFrom (n : Nat) (cs : List Char) : n ≤ digitsFrom n cs := by
  induction cs generalizing n with
  | nil => exact Nat.le_refl n
  | cons c cs ih =>
    have hstep := ih (10 * n + (c.toNat - '0'.toNat))
    change n ≤ digitsFrom (10 * n + (c.toNat - '0'.toNat)) cs
    omega

theorem isDigit_iff {c : Char} : c.isDigit = true ↔ 48 ≤ c.toNat ∧ c.toNat ≤ 57 := by
  simp only [Char.isDigit, ge_iff_le, Bool.and_eq_true, decide_eq_true_eq, UInt32.le_iff_toNat_le]
  exact Iff.rfl

theorem toDigit_eq_some_iff {c : Char} (hc : c.toNat < 128) {d : UInt64} :
    toDigit (asByte c) = some d ↔ c.isDigit = true ∧ c.toNat - '0'.toNat = d.toNat := by
  rw [toDigit, toNat_asByte hc, isDigit_iff]
  split
  · rename_i hdigit
    have hsmall : (UInt64.ofNat (c.toNat - 48)).toNat = c.toNat - 48 := by
      rw [UInt64.toNat_ofNat']
      omega
    rw [Option.some.injEq, ← UInt64.toNat_inj, hsmall]
    exact (and_iff_right hdigit).symm
  · rename_i hdigit
    exact iff_of_false (nomatch ·) fun h => hdigit h.1

theorem parseDigits_eq_some_iff {cs : List Char} (hcs : ∀ c ∈ cs, c.toNat < 128) {acc x : UInt64} :
    parseDigits acc (cs.map asByte) = some x ↔
      (∀ c ∈ cs, c.isDigit = true) ∧ digitsFrom acc.toNat cs = x.toNat := by
  induction cs generalizing acc with
  | nil =>
    refine ⟨fun h => ⟨by simp, ?_⟩, fun h => congrArg some (UInt64.toNat_inj.mp h.2)⟩
    rw [Option.some.inj h]
    rfl
  | cons c cs ih =>
    obtain ⟨hc, hcs⟩ := List.forall_mem_cons.mp hcs
    have hten : (10 : UInt64).toNat = 10 := rfl
    simp only [List.map_cons, parseDigits, Option.bind_eq_bind, Option.bind_eq_some_iff,
      checkedMul_eq_some_iff, toDigit_eq_some_iff hc, checkedAdd_eq_some_iff, ih hcs, hten,
      List.forall_mem_cons]
    constructor
    · rintro ⟨scaled, hscaled, digit, ⟨hdigit, hvalue⟩, acc', hacc, hall, hrest⟩
      refine ⟨⟨hdigit, hall⟩, ?_⟩
      change digitsFrom (10 * acc.toNat + (c.toNat - '0'.toNat)) cs = x.toNat
      rw [← hrest, ← hacc, ← hscaled, hvalue, Nat.mul_comm]
    · rintro ⟨⟨hdigit, hall⟩, hrest⟩
      change digitsFrom (10 * acc.toNat + (c.toNat - '0'.toNat)) cs = x.toNat at hrest
      -- the value never falls, so what is left fits at each step
      have hle := le_digitsFrom (10 * acc.toNat + (c.toNat - '0'.toNat)) cs
      have hlt := x.toNat_lt
      have hword : ∀ n, n ≤ 10 * acc.toNat + (c.toNat - '0'.toNat) → (UInt64.ofNat n).toNat = n := by
        intro n hn
        rw [UInt64.toNat_ofNat', Nat.mod_eq_of_lt]
        omega
      refine ⟨.ofNat (acc.toNat * 10), ?_, .ofNat (c.toNat - '0'.toNat), ⟨hdigit, ?_⟩,
        .ofNat (10 * acc.toNat + (c.toNat - '0'.toNat)), ?_, hall, ?_⟩
      · rw [hword _ (by omega)]
      · rw [hword _ (by omega)]
      · rw [hword _ (by omega), hword _ (by omega), hword _ (by omega)]
        omega
      · rw [hword _ (by omega)]
        exact hrest

section Signs

variable {c : Char} {cs : List Char}

theorem asByte_beq_iff (hc : c.toNat < 128) {k : Char} (hk : k.toNat < 128) :
    (asByte c == asByte k) = true ↔ c = k := by
  rw [beq_iff_eq, ← UInt8.toNat_inj, toNat_asByte hc, toNat_asByte hk]
  exact Char.toNat_inj

theorem parseU64_plus (hne : cs ≠ []) :
    parseU64 (('+' :: cs).map asByte) = parseDigits 0 (cs.map asByte) := by
  obtain ⟨d, ds, rfl⟩ := List.exists_cons_of_ne_nil hne
  rfl

theorem parseU64_of_ne_plus (hc : c.toNat < 128) (hplus : c ≠ '+') :
    parseU64 ((c :: cs).map asByte) = parseDigits 0 ((c :: cs).map asByte) := by
  have hbeq : (asByte c == 43) = false := by
    rw [← Bool.not_eq_true]
    exact fun h => hplus ((asByte_beq_iff hc (by decide)).mp h)
  rw [List.map_cons, parseU64, hbeq, Bool.false_or, if_neg Bool.false_ne_true]
  split
  · rename_i hminus
    obtain ⟨hminus, hempty⟩ := (Bool.and_eq_true _ _).mp hminus
    rw [beq_iff_eq.mp hminus, List.isEmpty_iff.mp hempty]
    rfl
  · rfl

theorem parseU64_eq_some_iff (hcs : ∀ c ∈ cs, c.toNat < 128) {x : UInt64} :
    parseU64 (cs.map asByte) = some x ↔ Text.parseU64 (.ofList cs) = some x.toNat := by
  rw [Text.parseU64_eq_some_iff, String.toList_ofList]
  have hlt := x.toNat_lt
  cases cs with
  | nil =>
    refine iff_of_false (nomatch ·) ?_
    rintro ⟨digits, hne, _, hnil | hcons, _⟩
    · exact hne hnil.symm
    · cases hcons
  | cons c cs =>
    obtain ⟨hc, hrest⟩ := List.forall_mem_cons.mp hcs
    by_cases hplus : c = '+'
    · subst hplus
      by_cases hnil : cs = []
      · subst hnil
        refine iff_of_false (nomatch ·) ?_
        rintro ⟨digits, hne, hall, heq | heq, _⟩
        · rw [← heq] at hall
          exact absurd (hall '+' List.mem_cons_self) (by decide)
        · exact hne (List.cons.inj heq).2.symm
      · rw [parseU64_plus hnil, parseDigits_eq_some_iff hrest]
        constructor
        · rintro ⟨hall, hvalue⟩
          exact ⟨cs, hnil, hall, .inr rfl, hvalue, hlt⟩
        · rintro ⟨digits, _, hall, heq | heq, hvalue, _⟩
          · rw [← heq] at hall
            exact absurd (hall '+' List.mem_cons_self) (by decide)
          · rw [(List.cons.inj heq).2]
            exact ⟨hall, hvalue⟩
    · rw [parseU64_of_ne_plus hc hplus, parseDigits_eq_some_iff hcs]
      constructor
      · rintro ⟨hall, hvalue⟩
        exact ⟨c :: cs, List.cons_ne_nil c cs, hall, .inl rfl, hvalue, hlt⟩
      · rintro ⟨digits, _, hall, heq | heq, hvalue, _⟩
        · rw [heq]
          exact ⟨hall, hvalue⟩
        · exact absurd (List.cons.inj heq).1 hplus

end Signs

end Decimal

end FiveSpot.Words
