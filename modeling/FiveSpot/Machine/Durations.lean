import Mathlib.Data.Nat.Digits.Defs
import FiveSpot.Data.Words
import FiveSpot.Machine.Validation

/-!
# Durations in machine arithmetic

`parse_duration` cuts its text at an index of bytes and calculates in 64 bits, and the grace period is
compared as a signed number. Here both are written so that a panic or a wrapped value would show, and
compared with the functions on characters and integers.
-/

namespace FiveSpot.Machine

set_option autoImplicit false

open Text Utf8

section Grammar

/-- The value of decimal digits, the highest first. -/
def decimal (digits : List Char) : Nat :=
  Nat.ofDigits 10 (digits.reverse.map fun c => c.toNat - '0'.toNat)

/-- Blanks around an optional plus sign, digits and a unit, which stand for so many seconds. -/
def IsDuration (s : String) (seconds : Nat) : Prop :=
  ∃ (sign digits : List Char) (unit : Char) (multiplier : Nat),
    Padded s (.ofList (sign ++ digits ++ [unit])) ∧ (sign = [] ∨ sign = ['+']) ∧ digits ≠ [] ∧
      (∀ c ∈ digits, c.isDigit = true) ∧ (unit, multiplier) ∈ [('s', 1), ('m', 60), ('h', 3600)] ∧
        decimal digits * multiplier = seconds ∧ seconds ≤ 86400

end Grammar

section Words

def unitMultiplier (unit : Bytes) : Option UInt64 :=
  if unit = asBytes "s" then some 1
  else if unit = asBytes "m" then some 60
  else if unit = asBytes "h" then some 3600
  else none

/-- `parse_duration` on bytes and words of 64 bits; `none` is a panic. -/
def parseDurationWords (durationStr : String) : Option (Except ReconcilerError UInt64) := do
  let text := trim durationStr
  let bytes := asBytes text
  if bytes.isEmpty then
    return .error (.invalidConfig "Empty duration string")
  else if !bytes.all fun b => b.toNat < 128 then
    return .error (.invalidConfig ("Invalid duration (non-ASCII): " ++ debug text))
  else
    -- the length is an unsigned number, and so is the index
    let mid ← if 1 ≤ bytes.length then some (bytes.length - 1) else none
    let (valueStr, unit) ← Words.splitAt bytes mid
    match Words.parseU64 valueStr with
    | none => return .error (.invalidConfig ("Invalid duration value: " ++ text))
    | some value =>
        match unitMultiplier unit with
        | none =>
            return .error (.invalidConfig
              ("Invalid duration unit: '" ++ fromUtf8Lossy unit ++ "'. Use 's', 'm', or 'h'"))
        | some multiplier =>
            match Words.checkedMul value multiplier with
            | none =>
                return .error (.invalidConfig
                  ("Duration overflow: '" ++ text ++ "' exceeds representable range"))
            | some seconds =>
                if UInt64.ofNat maxDurationSecs < seconds then
                  return .error (.invalidConfig ("Duration " ++ toString seconds.toNat ++
                    "s exceeds maximum of " ++ toString maxDurationSecs ++ "s (24h)"))
                else return .ok seconds

/-- `DateTime<Utc>`: the instants of the years -262143 to 262142. -/
structure DateTime where
  instant : Instant
  lower : -8334601228800 * nanosPerSecond ≤ instant
  upper : instant < 8210266876800 * nanosPerSecond

/-- `now.signed_duration_since(start).num_seconds()`. -/
def elapsedSecs (start now : DateTime) : Int64 := .ofInt (numSeconds (now.instant - start.instant))

/-- The comparison at the end of `check_grace_period_elapsed`, with the cast of the timeout. -/
def gracePeriodElapsedWords (start now : DateTime) (timeout : UInt64) : Bool :=
  if elapsedSecs start now < 0 then true else timeout.toInt64 ≤ elapsedSecs start now

end Words

section Refinement

variable {text : String} {front : List Char} {unit : Char}

theorem all_bytes_ascii (text : String) :
    ((asBytes text).all fun b => b.toNat < 128) = isAscii text := by
  have hbeyond : ∀ b : UInt8, 128 ≤ b.toNat → decide (b.toNat < 128) = false := by
    intro b hb
    exact decide_eq_false (Nat.not_lt.mpr hb)
  rw [all_asBytes hbeyond, isAscii]
  congr 1
  funext c
  exact onAscii_eq (by decide) (fun c hc => of_decide_eq_true hc) c

theorem asBytes_concat (h : text.toList = front ++ [unit]) (hascii : ∀ c ∈ text.toList, c.toNat < 128) :
    asBytes text = front.map asByte ++ [asByte unit] := by
  rw [asBytes, encode_ascii hascii, h, List.map_append]
  rfl

theorem unitMultiplier_asByte (hunit : unit.toNat < 128) :
    unitMultiplier [asByte unit] = (durationUnit unit).map UInt64.ofNat := by
  have hbyte : ∀ k : Char, k.toNat < 128 → ([asByte unit] = [asByte k] ↔ unit = k) := by
    intro k hk
    rw [List.singleton_inj, ← beq_iff_eq]
    exact Words.asByte_beq_iff hunit hk
  have hs : asBytes "s" = [asByte 's'] := rfl
  have hm : asBytes "m" = [asByte 'm'] := rfl
  have hh : asBytes "h" = [asByte 'h'] := rfl
  simp only [unitMultiplier, durationUnit, hs, hm, hh, hbyte 's' (by decide), hbyte 'm' (by decide),
    hbyte 'h' (by decide)]
  split
  · rfl
  split
  · rfl
  split
  · rfl
  · rfl

theorem fromUtf8Lossy_asByte (hunit : unit.toNat < 128) : fromUtf8Lossy [asByte unit] = .singleton unit := by
  have hbytes : asBytes (.singleton unit) = [asByte unit] := by
    rw [asBytes, String.toList_singleton, encode_ascii (by simpa using hunit)]
    rfl
  rw [← hbytes, fromUtf8Lossy_asBytes]

theorem parseU64_asByte (hfront : ∀ c ∈ front, c.toNat < 128) :
    Words.parseU64 (front.map asByte) = (Text.parseU64 (.ofList front)).map UInt64.ofNat := by
  cases hvalue : Text.parseU64 (.ofList front) with
  | none =>
    rw [Option.map_none, Option.eq_none_iff_forall_ne_some]
    intro x hx
    rw [Words.parseU64_eq_some_iff hfront, hvalue] at hx
    cases hx
  | some value =>
    obtain ⟨_, _, _, _, _, hlt⟩ := Text.parseU64_eq_some_iff.mp hvalue
    rw [Option.map_some, Words.parseU64_eq_some_iff hfront, hvalue, UInt64.toNat_ofNat',
      Nat.mod_eq_of_lt hlt]

theorem durationUnit_eq_some_iff {multiplier : Nat} : durationUnit unit = some multiplier ↔
    (unit, multiplier) ∈ [('s', 1), ('m', 60), ('h', 3600)] := by
  simp only [durationUnit, List.mem_cons, List.not_mem_nil, or_false, Prod.mk.injEq]
  split
  · rename_i hs
    subst hs
    simp [eq_comm]
  split
  · rename_i hm
    subst hm
    simp [eq_comm]
  split
  · rename_i hh
    subst hh
    simp [eq_comm]
  · rename_i hs hm hh
    simp [hs, hm, hh]

theorem durationUnit_lt {multiplier : Nat} (h : durationUnit unit = some multiplier) :
    multiplier < UInt64.size := by
  rw [durationUnit_eq_some_iff] at h
  simp only [List.mem_cons, List.not_mem_nil, or_false, Prod.mk.injEq] at h
  have hle : multiplier ≤ 3600 := by omega
  exact Nat.lt_of_le_of_lt hle (by decide)

theorem toNat_ofNat_word {n : Nat} (h : n < UInt64.size) : (UInt64.ofNat n).toNat = n := by
  rw [UInt64.toNat_ofNat', Nat.mod_eq_of_lt h]

theorem checkedMul_ofNat {m n : Nat} (hm : m < UInt64.size) (hn : n < UInt64.size) :
    Words.checkedMul (.ofNat m) (.ofNat n) =
      if UInt64.size ≤ m * n then none else some (.ofNat (m * n)) := by
  split
  · rename_i hle
    rw [Option.eq_none_iff_forall_ne_some]
    intro x hx
    rw [Words.checkedMul_eq_some_iff, toNat_ofNat_word hm, toNat_ofNat_word hn] at hx
    exact Nat.not_lt.mpr hle (hx ▸ x.toNat_lt)
  · rename_i hlt
    rw [Words.checkedMul_eq_some_iff, toNat_ofNat_word hm, toNat_ofNat_word hn,
      toNat_ofNat_word (Nat.not_le.mp hlt)]

theorem parseDurationWords_of_concat {durationStr : String}
    (hconcat : (trim durationStr).toList = front ++ [unit])
    (hascii : ∀ c ∈ (trim durationStr).toList, c.toNat < 128) :
    parseDurationWords durationStr = some ((parseDuration durationStr).map UInt64.ofNat) := by
  have hunit : unit.toNat < 128 := hascii unit (by simp [hconcat])
  have hfront : ∀ c ∈ front, c.toNat < 128 := fun c hc => hascii c (by simp [hconcat, hc])
  have hbytes := asBytes_concat hconcat hascii
  have hempty : ¬ (asBytes (trim durationStr)).isEmpty = true := by simp [hbytes]
  have hall : isAscii (trim durationStr) = true := by
    rw [isAscii, List.all_eq_true]
    exact fun c hc => decide_eq_true (hascii c hc)
  have hlength : (asBytes (trim durationStr)).length = front.length + 1 := by simp [hbytes]
  have hsplit : Words.splitAt (asBytes (trim durationStr)) front.length =
      some (front.map asByte, [asByte unit]) := by
    have happend := Words.splitAt_concat (front.map asByte) (b := asByte unit) (by rwa [toNat_asByte hunit])
    rwa [List.length_map, ← hbytes] at happend
  have hlast : (trim durationStr).toList.getLast? = some unit := by
    rw [hconcat, List.getLast?_concat]
  have hdrop : (trim durationStr).toList.dropLast = front := by
    rw [hconcat, List.dropLast_concat]
  unfold parseDurationWords parseDuration
  dsimp only
  rw [if_neg hempty, all_bytes_ascii, hall, if_neg (by decide), hlength, if_pos (Nat.le_add_left 1 _),
    Nat.add_sub_cancel, Option.bind_eq_bind, Option.bind_some, hsplit, Option.bind_eq_bind,
    Option.bind_some, hlast]
  dsimp only
  rw [if_neg (by decide), hdrop, parseU64_asByte hfront]
  cases hvalue : Text.parseU64 (.ofList front) with
  | none => rfl
  | some value =>
    obtain ⟨_, _, _, _, _, hlt⟩ := Text.parseU64_eq_some_iff.mp hvalue
    dsimp only [Option.map_some]
    rw [unitMultiplier_asByte hunit, fromUtf8Lossy_asByte hunit]
    cases hmultiplier : durationUnit unit with
    | none => rfl
    | some multiplier =>
      dsimp only [Option.map_some]
      rw [checkedMul_ofNat hlt (durationUnit_lt hmultiplier)]
      by_cases hoverflow : UInt64.size ≤ value * multiplier
      · rw [if_pos hoverflow, if_pos hoverflow]
        rfl
      · have hseconds := toNat_ofNat_word (Nat.not_le.mp hoverflow)
        have hmax : UInt64.ofNat maxDurationSecs < .ofNat (value * multiplier) ↔
            maxDurationSecs < value * multiplier := by
          rw [UInt64.lt_iff_toNat_lt, hseconds]
          exact Iff.rfl
        rw [if_neg hoverflow, if_neg hoverflow]
        dsimp only
        by_cases hlong : maxDurationSecs < value * multiplier
        · rw [if_pos (hmax.mpr hlong), if_pos hlong, hseconds]
          rfl
        · rw [if_neg (hmax.not.mpr hlong), if_neg hlong]
          rfl

/-- There is no panic, and no value is wrapped: the words are those of the function on characters. -/
theorem parseDurationWords_eq (durationStr : String) :
    parseDurationWords durationStr = some ((parseDuration durationStr).map UInt64.ofNat) := by
  rcases List.eq_nil_or_concat (trim durationStr).toList with hnil | ⟨front, unit, hconcat⟩
  · have hempty : (asBytes (trim durationStr)).isEmpty = true := by
      rw [asBytes, hnil]
      rfl
    unfold parseDurationWords parseDuration
    dsimp only
    rw [if_pos hempty, hnil]
    rfl
  rw [List.concat_eq_append] at hconcat
  cases hascii : isAscii (trim durationStr) with
  | true =>
    refine parseDurationWords_of_concat hconcat fun c hc => ?_
    exact of_decide_eq_true (List.all_eq_true.mp hascii c hc)
  | false =>
    have hlast : (trim durationStr).toList.getLast? = some unit := by
      rw [hconcat, List.getLast?_concat]
    have hempty : ¬ (asBytes (trim durationStr)).isEmpty = true := by
      intro hempty
      rw [← all_bytes_ascii, List.isEmpty_iff.mp hempty] at hascii
      cases hascii
    unfold parseDurationWords parseDuration
    dsimp only
    rw [if_neg hempty, all_bytes_ascii, hascii, hlast]
    rfl

end Refinement

section Exactness

variable {s : String}

theorem natOfDigits_eq_decimal (digits : List Char) : natOfDigits digits = decimal digits := by
  induction digits using List.reverseRecOn with
  | nil => rfl
  | append_singleton digits c ih =>
    rw [natOfDigits, List.foldl_append, decimal, List.reverse_append, List.map_append, List.foldl_cons,
      List.foldl_nil, List.reverse_singleton, List.map_singleton, List.singleton_append, Nat.ofDigits_cons,
      Nat.add_comm]
    exact congrArg (_ + 10 * ·) ih

theorem parseDuration_eq_ok_iff {n : Nat} : parseDuration s = .ok n ↔
    ∃ front unit value multiplier, (trim s).toList = front ++ [unit] ∧ isAscii (trim s) = true ∧
      Text.parseU64 (.ofList front) = some value ∧ durationUnit unit = some multiplier ∧
        value * multiplier = n ∧ n ≤ maxDurationSecs := by
  unfold parseDuration
  dsimp only
  constructor
  · intro h
    split at h
    · cases h
    rename_i unit hlast
    obtain ⟨front, hconcat⟩ := List.getLast?_eq_some_iff.mp hlast
    have hdrop : (trim s).toList.dropLast = front := by rw [hconcat, List.dropLast_concat]
    split at h
    · cases h
    rename_i hascii
    rw [Bool.not_eq_true', Bool.not_eq_false] at hascii
    split at h
    · cases h
    rename_i value hvalue
    split at h
    · cases h
    rename_i multiplier hmultiplier
    split at h
    · cases h
    split at h
    · cases h
    rename_i hmax
    rw [hdrop] at hvalue
    cases h
    exact ⟨front, unit, value, multiplier, hconcat, hascii, hvalue, hmultiplier, rfl, Nat.not_lt.mp hmax⟩
  · rintro ⟨front, unit, value, multiplier, hconcat, hascii, hvalue, hmultiplier, rfl, hmax⟩
    have hlast : (trim s).toList.getLast? = some unit := by rw [hconcat, List.getLast?_concat]
    have hdrop : (trim s).toList.dropLast = front := by rw [hconcat, List.dropLast_concat]
    have hsize : ¬ UInt64.size ≤ value * multiplier :=
      Nat.not_le.mpr (Nat.lt_of_le_of_lt hmax (by decide))
    rw [hlast]
    dsimp only
    rw [hascii, if_neg (by decide), hdrop, hvalue]
    dsimp only
    rw [hmultiplier]
    dsimp only
    rw [if_neg hsize, if_neg (Nat.not_lt.mpr hmax)]
    rfl

theorem isWhitespace_of_graphic {c : Char} (h : 33 ≤ c.toNat ∧ c.toNat < 128) :
    isWhitespace c = false := by
  simp only [isWhitespace, List.contains_eq_mem, List.mem_cons, List.not_mem_nil, or_false,
    Bool.or_eq_false_iff, Bool.and_eq_false_iff, decide_eq_false_iff_not]
  omega

theorem unit_graphic {unit : Char} {multiplier : Nat}
    (h : (unit, multiplier) ∈ [('s', 1), ('m', 60), ('h', 3600)]) :
    1 ≤ multiplier ∧ 33 ≤ unit.toNat ∧ unit.toNat < 128 := by
  simp only [List.mem_cons, List.not_mem_nil, or_false, Prod.mk.injEq] at h
  rcases h with ⟨rfl, rfl⟩ | ⟨rfl, rfl⟩ | ⟨rfl, rfl⟩
  · decide
  · decide
  · decide

theorem digits_graphic {sign digits : List Char} {unit : Char} (hsign : sign = [] ∨ sign = ['+'])
    (hdigits : ∀ c ∈ digits, c.isDigit = true) (hunit : 33 ≤ unit.toNat ∧ unit.toNat < 128) :
    ∀ c ∈ sign ++ digits ++ [unit], 33 ≤ c.toNat ∧ c.toNat < 128 := by
  intro c hc
  rcases List.mem_append.mp hc with hc | hc
  · rcases List.mem_append.mp hc with hc | hc
    · rcases hsign with rfl | rfl
      · cases hc
      · obtain rfl := List.mem_singleton.mp hc
        decide
    · have hdigit := Words.isDigit_iff.mp (hdigits c hc)
      omega
  · rwa [List.mem_singleton.mp hc]

theorem parseU64_front_iff {front : List Char} {value : Nat} :
    Text.parseU64 (.ofList front) = some value ↔ ∃ sign digits, front = sign ++ digits ∧
      (sign = [] ∨ sign = ['+']) ∧ digits ≠ [] ∧ (∀ c ∈ digits, c.isDigit = true) ∧
        decimal digits = value ∧ value < UInt64.size := by
  rw [Text.parseU64_eq_some_iff, String.toList_ofList]
  constructor
  · rintro ⟨digits, hne, hdigits, hfront | hfront, hvalue, hlt⟩
    · exact ⟨[], digits, hfront, .inl rfl, hne, hdigits, natOfDigits_eq_decimal digits ▸ hvalue, hlt⟩
    · exact ⟨['+'], digits, hfront, .inr rfl, hne, hdigits, natOfDigits_eq_decimal digits ▸ hvalue, hlt⟩
  · rintro ⟨sign, digits, rfl, hsign, hne, hdigits, hvalue, hlt⟩
    rw [← natOfDigits_eq_decimal] at hvalue
    rcases hsign with rfl | rfl
    · exact ⟨digits, hne, hdigits, .inl rfl, hvalue, hlt⟩
    · exact ⟨digits, hne, hdigits, .inr rfl, hvalue, hlt⟩

theorem parseDuration_iff_isDuration {n : Nat} : parseDuration s = .ok n ↔ IsDuration s n := by
  rw [parseDuration_eq_ok_iff]
  constructor
  · rintro ⟨front, unit, value, multiplier, hconcat, _, hvalue, hmultiplier, hn, hmax⟩
    obtain ⟨sign, digits, rfl, hsign, hne, hdigits, rfl, _⟩ := parseU64_front_iff.mp hvalue
    have htrim : trim s = .ofList (sign ++ digits ++ [unit]) := by rw [← hconcat, String.ofList_toList]
    refine ⟨sign, digits, unit, multiplier, htrim ▸ padded_trim s, hsign, hne, hdigits,
      durationUnit_eq_some_iff.mp hmultiplier, hn, hmax⟩
  · rintro ⟨sign, digits, unit, multiplier, hpadded, hsign, hne, hdigits, hunit, hn, hmax⟩
    obtain ⟨hpos, hgraphic⟩ := unit_graphic hunit
    have hplain := digits_graphic hsign hdigits hgraphic
    have htrim : trim s = .ofList (sign ++ digits ++ [unit]) := by
      refine hpadded.trim_eq fun c hc => isWhitespace_of_graphic (hplain c ?_)
      rwa [String.toList_ofList] at hc
    have hlist : (trim s).toList = (sign ++ digits) ++ [unit] := by rw [htrim, String.toList_ofList]
    have hvalue : decimal digits < UInt64.size := by
      have hle : decimal digits ≤ decimal digits * multiplier := Nat.le_mul_of_pos_right _ hpos
      exact Nat.lt_of_le_of_lt (hle.trans (hn ▸ hmax)) (by decide)
    refine ⟨sign ++ digits, unit, decimal digits, multiplier, hlist, ?_,
      parseU64_front_iff.mpr ⟨sign, digits, rfl, hsign, hne, hdigits, rfl, hvalue⟩,
      durationUnit_eq_some_iff.mpr hunit, hn, hmax⟩
    rw [isAscii, hlist, List.all_eq_true]
    exact fun c hc => decide_eq_true (hplain c hc).2

end Exactness

section GracePeriod

variable {timeout : UInt64}

theorem numSeconds_bounds {nanos : Int} (hlower : -16544868105600 * nanosPerSecond ≤ nanos)
    (hupper : nanos ≤ 16544868105600 * nanosPerSecond) :
    -2 ^ 63 ≤ numSeconds nanos ∧ numSeconds nanos < 2 ^ 63 := by
  have hsecond : nanosPerSecond = 1000000000 := rfl
  have hbits : (2 : Int) ^ 63 = 9223372036854775808 := by decide
  have habs : (numSeconds nanos).natAbs = nanos.natAbs / 1000000000 := Int.natAbs_tdiv nanos nanosPerSecond
  rw [hsecond] at hlower hupper
  rw [hbits]
  omega

theorem toInt_elapsedSecs (start now : DateTime) :
    (elapsedSecs start now).toInt = numSeconds (now.instant - start.instant) := by
  have hstart := start.lower
  have hstart' := Int.sub_pos_of_lt start.upper
  have hnow := now.lower
  have hnow' := Int.sub_pos_of_lt now.upper
  have hbounds : -2 ^ 63 ≤ numSeconds (now.instant - start.instant) ∧
      numSeconds (now.instant - start.instant) < 2 ^ 63 := by
    apply numSeconds_bounds
    · omega
    · omega
  exact Int64.toInt_ofInt_of_le hbounds.1 hbounds.2

theorem toInt_timeout (h : timeout.toNat ≤ maxDurationSecs) : timeout.toInt64.toInt = timeout.toNat := by
  have hmax : maxDurationSecs = 86400 := rfl
  have hsmall : 2 * timeout.toBitVec.toNat < 2 ^ 64 := by
    have hnat : timeout.toBitVec.toNat = timeout.toNat := rfl
    omega
  exact BitVec.toInt_eq_toNat_of_lt hsmall

theorem gracePeriodElapsedWords_eq (start now : DateTime) (h : timeout.toNat ≤ maxDurationSecs) :
    gracePeriodElapsedWords start now timeout =
      gracePeriodElapsed start.instant now.instant timeout.toNat := by
  have hzero : (0 : Int64).toInt = 0 := rfl
  unfold gracePeriodElapsedWords gracePeriodElapsed
  simp only [Int64.lt_iff_toInt_lt, Int64.le_iff_toInt_le, toInt_elapsedSecs, toInt_timeout h, hzero]

end GracePeriod

theorem map_ofNat_eq_ok_iff {s : String} {seconds : UInt64} :
    (parseDuration s).map UInt64.ofNat = .ok seconds ↔ parseDuration s = .ok seconds.toNat := by
  cases hparse : parseDuration s with
  | error e => exact iff_of_false (nomatch ·) (nomatch ·)
  | ok n =>
    obtain ⟨_, _, _, _, _, _, _, _, _, hmax⟩ := parseDuration_eq_ok_iff.mp hparse
    have hn : (UInt64.ofNat n).toNat = n := toNat_ofNat_word (Nat.lt_of_le_of_lt hmax (by decide))
    change Except.ok (UInt64.ofNat n) = Except.ok seconds ↔ _
    rw [Except.ok.injEq, Except.ok.injEq, ← UInt64.toNat_inj, hn]

/--
For every text there is a result, which is a number of seconds exactly if the text is a duration of as many,
at most a day; and for what is returned the comparison of the grace period, with its cast and its signed
numbers, is the one of the integers.
-/
theorem duration_exact (durationStr : String) :
    (∃ result, parseDurationWords durationStr = some result) ∧
      (∀ n : Nat, (∃ seconds : UInt64, parseDurationWords durationStr = some (.ok seconds) ∧
        seconds.toNat = n) ↔ IsDuration durationStr n) ∧
      ∀ timeout : UInt64, parseDurationWords durationStr = some (.ok timeout) →
        timeout.toInt64.toInt = timeout.toNat ∧ ∀ start now : DateTime,
          (elapsedSecs start now).toInt = numSeconds (now.instant - start.instant) ∧
            gracePeriodElapsedWords start now timeout =
              gracePeriodElapsed start.instant now.instant timeout.toNat := by
  have hok : ∀ seconds : UInt64, parseDurationWords durationStr = some (.ok seconds) ↔
      IsDuration durationStr seconds.toNat := by
    intro seconds
    rw [← parseDuration_iff_isDuration, parseDurationWords_eq, Option.some.injEq]
    exact map_ofNat_eq_ok_iff
  refine ⟨⟨_, parseDurationWords_eq durationStr⟩, ?_, ?_⟩
  · intro n
    constructor
    · rintro ⟨seconds, hseconds, rfl⟩
      exact (hok seconds).mp hseconds
    · intro hduration
      obtain ⟨_, _, _, _, _, _, _, _, _, _, hmax⟩ := id hduration
      have hn : (UInt64.ofNat n).toNat = n := toNat_ofNat_word (Nat.lt_of_le_of_lt hmax (by decide))
      exact ⟨.ofNat n, (hok _).mpr (by rwa [hn]), hn⟩
  · intro timeout htimeout
    obtain ⟨_, _, _, _, _, _, _, _, _, _, hmax⟩ := (hok timeout).mp htimeout
    exact ⟨toInt_timeout hmax, fun start now =>
      ⟨toInt_elapsedSecs start now, gracePeriodElapsedWords_eq start now hmax⟩⟩

end FiveSpot.Machine
