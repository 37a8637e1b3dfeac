import Mathlib.Data.List.Basic
import Mathlib.Data.Nat.Digits.Defs
import FiveSpot.Provider.Calendar

/-!
# What day and hour ranges mean

The language of the two range parsers and the set of numbers a list of texts stands for. Days and
hours are marks on a dial; a range goes round from its start to its end. Only the parts between the
commas count, so it does not matter how they are distributed over the list.
-/

namespace FiveSpot.Provider

set_option autoImplicit false

open Text (Padded isWhitespace)

section Dial

variable {modulus a b first last n : Nat}

/-- The steps from `a` forward to `b` on a dial. -/
def dialDistance (modulus a b : Nat) : Nat := (b + modulus - a) % modulus

/-- The mark `n` is passed on the way from `first` to `last`. -/
structure OnDial (modulus first last n : Nat) : Prop where
  mark : n < modulus
  passed : dialDistance modulus first n ≤ dialDistance modulus first last

theorem dialDistance_eq (ha : a < modulus) (hb : b < modulus) :
    dialDistance modulus a b = if a ≤ b then b - a else b + modulus - a := by
  unfold dialDistance
  split
  · rw [show b + modulus - a = b - a + modulus by omega, Nat.add_mod_right,
      Nat.mod_eq_of_lt (by omega)]
  · exact Nat.mod_eq_of_lt (by omega)

theorem mem_wrapRange_iff_onDial (hfirst : first < modulus) (hlast : last < modulus) :
    n ∈ wrapRange (modulus - 1) first last ↔ OnDial modulus first last n := by
  rw [mem_wrapRange_iff]
  constructor
  · intro h
    have hn : n < modulus := by split at h <;> omega
    refine ⟨hn, ?_⟩
    rw [dialDistance_eq hfirst hn, dialDistance_eq hfirst hlast]
    split at h <;> split <;> omega
  · rintro ⟨hn, hpassed⟩
    rw [dialDistance_eq hfirst hn, dialDistance_eq hfirst hlast] at hpassed
    split at hpassed <;> split at hpassed <;> split <;> omega

end Dial

section Values

def dayNames : List String := ["mon", "tue", "wed", "thu", "fri", "sat", "sun"]

def IsDay (text : String) (n : Nat) : Prop := dayNames[n]? = some text

def decimalValue (digits : List Char) : Nat :=
  Nat.ofDigits 10 (digits.reverse.map fun c => c.toNat - '0'.toNat)

/-- An optional plus sign and decimal digits, with a value of at most 23. -/
def IsHour (text : String) (n : Nat) : Prop :=
  ∃ digits : List Char, digits ≠ [] ∧ (∀ c ∈ digits, c.isDigit = true) ∧
    (text.toList = digits ∨ text.toList = '+' :: digits) ∧ decimalValue digits = n ∧ n ≤ maxHour

/-- What a part stands for: one value, or two with a dash between them and blanks around each. -/
inductive Denotes (Value : String → Nat → Prop) (part : String) : Nat → Nat → Prop where
  | value {n : Nat} (h : Value part n) : Denotes Value part n n
  | range {before after start stop : String} {first last : Nat} (hpart : part = before ++ "-" ++ after)
      (hbefore : Padded before start) (hafter : Padded after stop) (hfirst : Value start first)
      (hlast : Value stop last) : Denotes Value part first last

/-- The texts of values can be told from blanks and from the dash. -/
def Plain (Value : String → Nat → Prop) : Prop :=
  ∀ text n, Value text n → text.toList ≠ [] ∧ ∀ c ∈ text.toList, isWhitespace c = false ∧ c ≠ '-'

theorem natOfDigits_eq (digits : List Char) : Text.natOfDigits digits = decimalValue digits := by
  rw [Text.natOfDigits, decimalValue, Nat.ofDigits_eq_foldr, List.foldr_map, List.foldr_reverse]
  simp [Nat.add_comm]

theorem isHour_iff {text : String} {n : Nat} :
    IsHour text n ↔ Text.parseU8 text = some n ∧ n ≤ maxHour := by
  have hsize : UInt8.size = 256 := rfl
  have hsize' : UInt64.size = 18446744073709551616 := rfl
  have hmax : maxHour = 23 := rfl
  rw [Text.parseU8, Option.filter_eq_some_iff, Text.parseU64_eq_some_iff]
  simp only [natOfDigits_eq, IsHour]
  constructor
  · rintro ⟨digits, hne, hall, htext, hvalue, hle⟩
    exact ⟨⟨⟨digits, hne, hall, htext, hvalue, by omega⟩, by simp; omega⟩, hle⟩
  · rintro ⟨⟨⟨digits, hne, hall, htext, hvalue, _⟩, _⟩, hle⟩
    exact ⟨digits, hne, hall, htext, hvalue, hle⟩

theorem dayNumber_eq_ok_iff {day : String} {n : Nat} : dayNumber day = .ok n ↔ IsDay day n := by
  constructor
  · intro h
    unfold dayNumber at h
    split at h
    · rename_i name found hfound
      obtain rfl := Except.ok.inj h
      have hname : name = day := by simpa using List.find?_some hfound
      subst hname
      have hmem := List.mem_of_find?_eq_some hfound
      simp only [dayMapping, List.mem_cons, Prod.mk.injEq, List.not_mem_nil, or_false] at hmem
      rcases hmem with ⟨rfl, rfl⟩ | ⟨rfl, rfl⟩ | ⟨rfl, rfl⟩ | ⟨rfl, rfl⟩ | ⟨rfl, rfl⟩ | ⟨rfl, rfl⟩ |
        ⟨rfl, rfl⟩ <;> rfl
    · cases h
  · intro h
    obtain ⟨hn, rfl⟩ := List.getElem?_eq_some_iff.mp h
    have hall : ∀ i : Fin dayNames.length, dayNumber (dayNames.get i) = .ok i.val := by decide +kernel
    exact hall ⟨n, hn⟩

theorem hourNumber_eq_ok_iff {hour : String} {n : Nat} :
    hourNumber hour = .ok n ↔ Text.parseU8 (Text.trim hour) = some n := by
  unfold hourNumber
  split
  · rename_i found hfound
    rw [hfound]
    simp
  · rename_i hnone
    rw [hnone]
    simp

theorem IsDay.lt {text : String} {n : Nat} (h : IsDay text n) : n < 7 :=
  (List.getElem?_eq_some_iff.mp h).1

theorem IsHour.lt {text : String} {n : Nat} (h : IsHour text n) : n < 24 := by
  obtain ⟨_, _, _, _, _, hle⟩ := h
  exact Nat.lt_succ_of_le hle

theorem plain_isDay : Plain IsDay := by
  intro text n h
  have hall : ∀ name ∈ dayNames, name.toList ≠ [] ∧
      name.toList.all (fun c => !isWhitespace c && c != '-') = true := by
    decide +kernel
  obtain ⟨hne, hchars⟩ := hall text (List.mem_of_getElem? h)
  refine ⟨hne, fun c hc => ?_⟩
  simpa using List.all_eq_true.mp hchars c hc

theorem isWhitespace_of_isDigit {c : Char} (h : c.isDigit = true) : isWhitespace c = false ∧ c ≠ '-' := by
  have hle : 48 ≤ c.toNat ∧ c.toNat ≤ 57 := by
    simpa [Char.isDigit, UInt32.le_iff_toNat_le] using h
  have hdash : ('-' : Char).toNat = 45 := rfl
  refine ⟨?_, fun heq => ?_⟩
  · simp [isWhitespace]
    omega
  · rw [heq] at hle
    omega

theorem plain_isHour : Plain IsHour := by
  rintro text n ⟨digits, hne, hall, htext, _⟩
  rcases htext with htext | htext
  · rw [htext]
    exact ⟨hne, fun c hc => isWhitespace_of_isDigit (hall c hc)⟩
  · rw [htext]
    refine ⟨List.cons_ne_nil _ _, fun c hc => ?_⟩
    rcases List.mem_cons.mp hc with rfl | hc
    · decide
    · exact isWhitespace_of_isDigit (hall c hc)

end Values

section Parts

variable {Value : String → Nat → Prop} {part before after text : String} {first last n : Nat}

theorem notMem_dash_of_padded (hplain : Plain Value) (hpadded : Padded before text)
    (hvalue : Value text n) : '-' ∉ before.toList := by
  obtain ⟨blanks, blanks', hblanks, hblanks', heq⟩ := hpadded
  intro hmem
  rw [heq] at hmem
  rcases List.mem_append.mp hmem with hmem | hmem
  · rcases List.mem_append.mp hmem with hmem | hmem
    · exact absurd (hblanks _ hmem) (by decide)
    · exact ((hplain text n hvalue).2 _ hmem).2 rfl
  · exact absurd (hblanks' _ hmem) (by decide)

theorem trim_of_padded (hplain : Plain Value) (hpadded : Padded before text) (hvalue : Value text n) :
    Text.trim before = text :=
  hpadded.trim_eq fun c hc => ((hplain text n hvalue).2 c hc).1

theorem split_dash (hbefore : '-' ∉ before.toList) (hafter : '-' ∉ after.toList) :
    Text.split '-' (before ++ "-" ++ after) = [before, after] := by
  have htext : (before ++ "-" ++ after).toList = before.toList ++ '-' :: after.toList := by simp
  rw [Text.split, htext, Text.splitChars_append hbefore, Text.splitChars_of_notMem hafter]
  simp

theorem eq_of_split_dash (h : Text.split '-' part = [before, after]) : part = before ++ "-" ++ after := by
  obtain ⟨w, w', hsplit⟩ : ∃ w w', Text.splitChars '-' part.toList = [w, w'] := by
    have hlength := congrArg List.length h
    rw [Text.split, List.length_map] at hlength
    exact List.length_eq_two.mp hlength
  have hparts := h
  rw [Text.split, hsplit] at hparts
  simp only [List.map_cons, List.map_nil, List.cons.injEq, and_true] at hparts
  obtain ⟨rfl, rfl⟩ := hparts
  rw [← String.toList_inj, Text.eq_of_splitChars hsplit]
  simp

theorem denotes_iff_of_notMem (hdash : '-' ∉ part.toList) :
    Denotes Value part first last ↔ first = last ∧ Value part first := by
  constructor
  · intro h
    cases h with
    | value h => exact ⟨rfl, h⟩
    | range hpart => exact absurd (by simp [hpart]) hdash
  · rintro ⟨rfl, h⟩
    exact .value h

theorem denotes_iff_of_mem (hplain : Plain Value) (hdash : '-' ∈ part.toList) :
    Denotes Value part first last ↔ ∃ before after, Text.split '-' part = [before, after] ∧
      Value (Text.trim before) first ∧ Value (Text.trim after) last := by
  constructor
  · intro h
    cases h with
    | value h => exact absurd rfl ((hplain part _ h).2 _ hdash).2
    | @range before after _ _ _ _ hpart hbefore hafter hfirst hlast =>
      refine ⟨before, after, ?_, ?_, ?_⟩
      · rw [hpart]
        exact split_dash (notMem_dash_of_padded hplain hbefore hfirst)
          (notMem_dash_of_padded hplain hafter hlast)
      · rwa [trim_of_padded hplain hbefore hfirst]
      · rwa [trim_of_padded hplain hafter hlast]
  · rintro ⟨before, after, hsplit, hfirst, hlast⟩
    exact .range (eq_of_split_dash hsplit) (Text.padded_trim before) (Text.padded_trim after) hfirst
      hlast

theorem not_startsWith_dash (hplain : Plain Value) (h : Denotes Value part first last) :
    Text.startsWith "-" part = false := by
  have hhead : ∀ w : List Char, w ≠ [] → '-' ∉ w → ∀ rest, ("-".toList).isPrefixOf (w ++ rest) = false := by
    intro w hne hw rest
    cases w with
    | nil => exact absurd rfl hne
    | cons c w =>
      have hc : '-' ≠ c := fun heq => hw (heq ▸ List.mem_cons_self)
      simp [List.isPrefixOf, hc]
  cases h with
  | value h =>
    obtain ⟨hne, hchars⟩ := hplain part _ h
    simpa [Text.startsWith] using hhead part.toList hne (fun hmem => (hchars _ hmem).2 rfl) []
  | @range before after start _ _ _ hpart hbefore hafter hfirst hlast =>
    have hne : before.toList ≠ [] := by
      obtain ⟨blanks, blanks', _, _, heq⟩ := hbefore
      have hstart := (hplain start _ hfirst).1
      rw [heq]
      simp [hstart]
    rw [Text.startsWith, hpart, String.toList_append, String.toList_append, List.append_assoc]
    exact hhead before.toList hne (notMem_dash_of_padded hplain hbefore hfirst) _

theorem wrapRange_self (max n : Nat) : wrapRange max n n = [n] := by
  simp [wrapRange]

theorem parseDayPart_eq_ok_iff {numbers : List Nat} : parseDayPart part = .ok numbers ↔
    ∃ first last, Denotes IsDay (Text.trim part) first last ∧ numbers = wrapRange 6 first last := by
  unfold parseDayPart
  simp only
  by_cases hdash : '-' ∈ (Text.trim part).toList
  · rw [if_pos (by simpa using hdash)]
    simp only [denotes_iff_of_mem plain_isDay hdash]
    split
    · rename_i start stop hsplit
      simp only [except_bind_eq_ok, dayNumber_eq_ok_iff, hsplit, List.cons.injEq, and_true]
      constructor
      · rintro ⟨first, hfirst, last, hlast, heq⟩
        exact ⟨first, last, ⟨start, stop, ⟨rfl, rfl⟩, hfirst, hlast⟩, (Except.ok.inj heq).symm⟩
      · rintro ⟨first, last, ⟨_, _, ⟨rfl, rfl⟩, hfirst, hlast⟩, rfl⟩
        exact ⟨first, hfirst, last, hlast, rfl⟩
    · rename_i hsplit
      refine ⟨(nomatch ·), ?_⟩
      rintro ⟨_, _, ⟨before, after, heq, _⟩, _⟩
      exact absurd heq (hsplit before after)
  · rw [if_neg (by simpa using hdash)]
    simp only [denotes_iff_of_notMem hdash, except_bind_eq_ok, dayNumber_eq_ok_iff]
    constructor
    · rintro ⟨n, hn, heq⟩
      exact ⟨n, n, ⟨rfl, hn⟩, by rw [wrapRange_self, ← Except.ok.inj heq]⟩
    · rintro ⟨n, _, ⟨rfl, hn⟩, rfl⟩
      exact ⟨n, hn, by rw [wrapRange_self]; rfl⟩

theorem value_trim_trim_iff (part : String) (hplain : Plain Value) :
    Value (Text.trim (Text.trim part)) n ↔ Value (Text.trim part) n := by
  have hself : ∀ {text : String}, Value text n → Text.trim text = text := fun {text} h =>
    trim_of_padded hplain ⟨[], [], by simp, by simp, by simp⟩ h
  constructor
  · intro h
    obtain ⟨before, after, hbefore, hafter, heq⟩ := Text.padded_trim part
    obtain ⟨before', after', hbefore', hafter', heq'⟩ := Text.padded_trim (Text.trim part)
    have hpadded : Padded part (Text.trim (Text.trim part)) := by
      refine ⟨before ++ before', after' ++ after, ?_, ?_, by rw [heq, heq']; simp⟩
      · exact List.forall_mem_append.mpr ⟨hbefore, hbefore'⟩
      · exact List.forall_mem_append.mpr ⟨hafter', hafter⟩
    have htrim : Text.trim part = Text.trim (Text.trim part) := trim_of_padded hplain hpadded h
    rwa [← htrim] at h
  · intro h
    rwa [hself h]

theorem parseHourPart_eq_ok_iff {numbers : List Nat} : parseHourPart part = .ok numbers ↔
    ∃ first last, Denotes IsHour (Text.trim part) first last ∧
      numbers = wrapRange maxHour first last := by
  unfold parseHourPart
  simp only
  split
  · rename_i hguard
    obtain ⟨hdash, _⟩ : '-' ∈ (Text.trim part).toList ∧ _ := by simpa using hguard
    simp only [denotes_iff_of_mem plain_isHour hdash, isHour_iff]
    split
    · rename_i start stop hsplit
      simp only [except_bind_eq_ok, hourNumber_eq_ok_iff, hsplit, List.cons.injEq, and_true]
      constructor
      · rintro ⟨first, hfirst, last, hlast, heq⟩
        split at heq
        · cases heq
        · rename_i hbounds
          obtain ⟨hfirst', hlast'⟩ : first ≤ maxHour ∧ last ≤ maxHour := by simpa using hbounds
          exact ⟨first, last, ⟨start, stop, ⟨rfl, rfl⟩, ⟨hfirst, hfirst'⟩, hlast, hlast'⟩,
            (Except.ok.inj heq).symm⟩
      · rintro ⟨first, last, ⟨_, _, ⟨rfl, rfl⟩, ⟨hfirst, hfirst'⟩, hlast, hlast'⟩, rfl⟩
        refine ⟨first, hfirst, last, hlast, ?_⟩
        rw [if_neg (by simp [hfirst', hlast'])]
        rfl
    · rename_i hsplit
      refine ⟨(nomatch ·), ?_⟩
      rintro ⟨_, _, ⟨before, after, heq, _⟩, _⟩
      exact absurd heq (hsplit before after)
  · rename_i hguard
    have hsingle : (∃ first last, Denotes IsHour (Text.trim part) first last ∧
        numbers = wrapRange maxHour first last) ↔
          ∃ n, IsHour (Text.trim part) n ∧ numbers = [n] := by
      constructor
      · rintro ⟨first, last, hdenotes, heq⟩
        have hstart := not_startsWith_dash plain_isHour hdenotes
        have hdash : '-' ∉ (Text.trim part).toList := by
          intro hmem
          simp [hmem, hstart] at hguard
        obtain ⟨rfl, hhour⟩ := (denotes_iff_of_notMem hdash).mp hdenotes
        exact ⟨first, hhour, by rw [heq, wrapRange_self]⟩
      · rintro ⟨n, hhour, heq⟩
        exact ⟨n, n, .value hhour, by rw [heq, wrapRange_self]⟩
    rw [hsingle]
    simp only [← value_trim_trim_iff part plain_isHour, isHour_iff, except_bind_eq_ok,
      hourNumber_eq_ok_iff]
    constructor
    · rintro ⟨n, hn, heq⟩
      split at heq
      · cases heq
      · rename_i hle
        exact ⟨n, ⟨hn, Nat.not_lt.mp hle⟩, (Except.ok.inj heq).symm⟩
    · rintro ⟨n, ⟨hn, hle⟩, rfl⟩
      refine ⟨n, hn, ?_⟩
      rw [if_neg (Nat.not_lt.mpr hle)]
      rfl

end Parts

section Lists

variable {parsePart : String → Except String (List Nat)} {specs : List String}

def parts (specs : List String) : List String := (specs.flatMap (Text.split ',')).map Text.trim

theorem exists_mem_parts {P : String → Prop} : (∃ part ∈ parts specs, P part) ↔
    ∃ part ∈ specs.flatMap (Text.split ','), P (Text.trim part) := by
  simp only [parts, List.mem_map]
  constructor
  · rintro ⟨_, ⟨part, hpart, rfl⟩, h⟩
    exact ⟨part, hpart, h⟩
  · rintro ⟨part, hpart, h⟩
    exact ⟨_, ⟨part, hpart, rfl⟩, h⟩

variable (parsePart) in
theorem foldlM_parse (texts : List String) (acc : List Nat) :
    (∃ e, texts.foldlM (fun result part => return result ++ (← parsePart part)) acc = .error e ∧
        ∃ part ∈ texts, ∃ e, parsePart part = .error e) ∨
      ∃ numbers, texts.foldlM (fun result part => return result ++ (← parsePart part)) acc =
          .ok numbers ∧ (∀ part ∈ texts, ∃ ns, parsePart part = .ok ns) ∧
        ∀ n, n ∈ numbers ↔ n ∈ acc ∨ ∃ part ∈ texts, ∃ ns, parsePart part = .ok ns ∧ n ∈ ns := by
  induction texts generalizing acc with
  | nil => exact .inr ⟨acc, rfl, by simp, by simp⟩
  | cons part texts ih =>
    cases hpart : parsePart part with
    | error e =>
      refine .inl ⟨e, ?_, part, List.mem_cons_self, e, hpart⟩
      rw [List.foldlM_cons, hpart]
      rfl
    | ok ns =>
      have hstep : (part :: texts).foldlM (fun result part => return result ++ (← parsePart part)) acc =
          texts.foldlM (fun result part => return result ++ (← parsePart part)) (acc ++ ns) := by
        rw [List.foldlM_cons, hpart]
        rfl
      rw [hstep]
      rcases ih (acc ++ ns) with ⟨e, herror, bad, hbad, he⟩ | ⟨numbers, hok, hall, hmem⟩
      · exact .inl ⟨e, herror, bad, List.mem_cons_of_mem _ hbad, he⟩
      · refine .inr ⟨numbers, hok, List.forall_mem_cons.mpr ⟨⟨ns, hpart⟩, hall⟩, fun n => ?_⟩
        rw [hmem, List.mem_append, List.exists_mem_cons_iff, hpart]
        simp [or_assoc]

/-- The outcome of a parser: a set of numbers, unless it fails. -/
def resultSet : Except String (List Nat) → Option (Set Nat)
  | .error _ => none
  | .ok numbers => some {n | n ∈ numbers}

/-- A parser that reads exactly the lists of parts that stand for values or ranges of values, as the
numbers these pass on the dial. -/
structure ReadsRanges (Value : String → Nat → Prop) (modulus : Nat)
    (parse : List String → Except String (List Nat)) : Prop where
  fails_iff : ∀ specs, (∃ e, parse specs = .error e) ↔
    ∃ part ∈ parts specs, ¬ ∃ first last, Denotes Value part first last
  mem_iff : ∀ specs numbers, parse specs = .ok numbers → ∀ n, n ∈ numbers ↔
    ∃ part ∈ parts specs, ∃ first last, Denotes Value part first last ∧ OnDial modulus first last n
  rearranged : ∀ specs specs', (∀ part, part ∈ parts specs ↔ part ∈ parts specs') →
    resultSet (parse specs) = resultSet (parse specs')

section Reads

variable {Value : String → Nat → Prop} {modulus : Nat}
  (hpart : ∀ part numbers, parsePart part = .ok numbers ↔
    ∃ first last, Denotes Value (Text.trim part) first last ∧
      numbers = wrapRange (modulus - 1) first last)

include hpart

theorem parsePart_fails_iff (part : String) : (∃ e, parsePart part = .error e) ↔
    ¬ ∃ first last, Denotes Value (Text.trim part) first last := by
  cases hparse : parsePart part with
  | error e =>
    refine ⟨fun _ hdenotes => ?_, fun _ => ⟨e, rfl⟩⟩
    obtain ⟨first, last, hdenotes⟩ := hdenotes
    have hok := (hpart part _).mpr ⟨first, last, hdenotes, rfl⟩
    rw [hparse] at hok
    cases hok
  | ok numbers =>
    obtain ⟨first, last, hdenotes, _⟩ := (hpart part numbers).mp hparse
    refine ⟨?_, fun hnot => absurd ⟨first, last, hdenotes⟩ hnot⟩
    rintro ⟨e, he⟩
    cases he

theorem parseRanges_fails_iff (specs : List String) :
    (∃ e, parseRanges parsePart specs = .error e) ↔
      ∃ part ∈ parts specs, ¬ ∃ first last, Denotes Value part first last := by
  simp only [exists_mem_parts, ← parsePart_fails_iff hpart]
  rcases foldlM_parse parsePart (specs.flatMap (Text.split ',')) []
    with ⟨e, herror, hbad⟩ | ⟨numbers, hok, hall, _⟩
  · exact ⟨fun _ => hbad, fun _ => ⟨e, herror⟩⟩
  · constructor
    · rintro ⟨e, herror⟩
      cases hok.symm.trans herror
    · rintro ⟨part, hmem, e, he⟩
      obtain ⟨ns, hns⟩ := hall part hmem
      cases hns.symm.trans he

variable (hlt : ∀ text n, Value text n → n < modulus)

include hlt

theorem mem_parseRanges_iff {numbers : List Nat} (h : parseRanges parsePart specs = .ok numbers)
    (n : Nat) : n ∈ numbers ↔ ∃ part ∈ parts specs, ∃ first last, Denotes Value part first last ∧
      OnDial modulus first last n := by
  have hbounds : ∀ {part first last}, Denotes Value part first last → first < modulus ∧ last < modulus := by
    intro part first last hdenotes
    cases hdenotes with
    | value h => exact ⟨hlt _ _ h, hlt _ _ h⟩
    | range _ _ _ hfirst hlast => exact ⟨hlt _ _ hfirst, hlt _ _ hlast⟩
  rcases foldlM_parse parsePart (specs.flatMap (Text.split ',')) []
    with ⟨e, herror, _⟩ | ⟨numbers', hok, _, hmem⟩
  · cases h.symm.trans herror
  · obtain rfl : numbers = numbers' := Except.ok.inj (h.symm.trans hok)
    rw [hmem]
    simp only [List.not_mem_nil, false_or, exists_mem_parts, hpart]
    refine exists_congr fun part => and_congr_right fun _ => ?_
    constructor
    · rintro ⟨_, ⟨first, last, hdenotes, rfl⟩, hn⟩
      obtain ⟨hfirst, hlast⟩ := hbounds hdenotes
      exact ⟨first, last, hdenotes, (mem_wrapRange_iff_onDial hfirst hlast).mp hn⟩
    · rintro ⟨first, last, hdenotes, hn⟩
      obtain ⟨hfirst, hlast⟩ := hbounds hdenotes
      exact ⟨_, ⟨first, last, hdenotes, rfl⟩, (mem_wrapRange_iff_onDial hfirst hlast).mpr hn⟩

theorem readsRanges_parseRanges : ReadsRanges Value modulus (parseRanges parsePart) where
  fails_iff := parseRanges_fails_iff hpart
  mem_iff _ _ h := mem_parseRanges_iff hpart hlt h
  rearranged specs specs' hsame := by
    have hfails := parseRanges_fails_iff hpart specs
    have hfails' := parseRanges_fails_iff hpart specs'
    simp only [hsame] at hfails
    rw [← hfails'] at hfails
    cases hparse : parseRanges parsePart specs with
    | error e =>
      obtain ⟨e', hparse'⟩ := hfails.mp ⟨e, hparse⟩
      rw [hparse']
      rfl
    | ok numbers =>
      cases hparse' : parseRanges parsePart specs' with
      | error e' =>
        obtain ⟨e, herror⟩ := hfails.mpr ⟨e', hparse'⟩
        cases hparse.symm.trans herror
      | ok numbers' =>
        refine congrArg some (Set.ext fun n => ?_)
        have hmem := mem_parseRanges_iff hpart hlt hparse n
        have hmem' := mem_parseRanges_iff hpart hlt hparse' n
        simp only [hsame] at hmem
        exact hmem.trans hmem'.symm

end Reads

end Lists

/-- Days on a dial of seven, hours on one of twenty-four. -/
theorem range_parsers_exact :
    ReadsRanges IsDay 7 parseDayRanges ∧ ReadsRanges IsHour 24 parseHourRanges :=
  ⟨readsRanges_parseRanges (fun _ _ => parseDayPart_eq_ok_iff) fun _ _ => IsDay.lt,
    readsRanges_parseRanges (fun _ _ => parseHourPart_eq_ok_iff) fun _ _ => IsHour.lt⟩

end FiveSpot.Provider
