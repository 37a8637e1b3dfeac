import Mathlib.Data.List.TakeWhile
import Mathlib.Tactic.Common

/-!
# Text

String operations with the meaning they have in the Rust standard library. Each works on the list
of characters, so that it can be evaluated in proofs.
-/

namespace FiveSpot.Text

set_option autoImplicit false

def splitOnceChars (c : Char) : List Char → Option (List Char × List Char)
  | [] => none
  | x :: xs =>
      if x = c then some ([], xs)
      else (splitOnceChars c xs).map fun (before, after) => (x :: before, after)

/-- `str::split_once`: the text before and after the first `c`. -/
def splitOnce (c : Char) (s : String) : Option (String × String) :=
  (splitOnceChars c s.toList).map fun (before, after) => (.ofList before, .ofList after)

/-- `str::rsplit_once`: the text before and after the last `c`. -/
def rsplitOnce (c : Char) (s : String) : Option (String × String) :=
  (splitOnceChars c s.toList.reverse).map fun (after, before) =>
    (.ofList before.reverse, .ofList after.reverse)

def splitChars (c : Char) : List Char → List (List Char)
  | [] => [[]]
  | x :: xs =>
      if x = c then [] :: splitChars c xs
      else
        match splitChars c xs with
        | [] => [[x]]
        | part :: parts => (x :: part) :: parts

/-- `str::split`: the parts between the occurrences of `c`, at least one. -/
def split (c : Char) (s : String) : List String := (splitChars c s.toList).map .ofList

theorem splitChars_ne_nil (c : Char) (cs : List Char) : splitChars c cs ≠ [] := by
  cases cs with
  | nil => simp [splitChars]
  | cons x xs =>
    unfold splitChars
    split
    · simp
    · split <;> simp

theorem split_ne_nil (c : Char) (s : String) : split c s ≠ [] := by
  simpa [split] using splitChars_ne_nil c s.toList

/-- `char::is_whitespace`: the characters with the Unicode property `White_Space`. -/
def isWhitespace (c : Char) : Bool :=
  (0x09 ≤ c.toNat && c.toNat ≤ 0x0D) || (0x2000 ≤ c.toNat && c.toNat ≤ 0x200A) ||
    [0x20, 0x85, 0xA0, 0x1680, 0x2028, 0x2029, 0x202F, 0x205F, 0x3000].contains c.toNat

def trim (s : String) : String :=
  .ofList ((s.toList.dropWhile isWhitespace).reverse.dropWhile isWhitespace).reverse

def splitWhen (sep : Char → Bool) : List Char → List (List Char)
  | [] => [[]]
  | x :: xs =>
      if sep x then [] :: splitWhen sep xs
      else
        match splitWhen sep xs with
        | [] => [[x]]
        | part :: parts => (x :: part) :: parts

/-- `str::split_whitespace`: the words between the whitespace. -/
def splitWhitespace (s : String) : List String :=
  ((splitWhen isWhitespace s.toList).filter fun word => !word.isEmpty).map .ofList

/-- `str::lines`: the texts that end in a line feed, without it and a carriage return before it, and what
is left after the last one, unless it is empty. -/
def lines (s : String) : List String :=
  let parts := splitChars '\n' s.toList
  let ended := parts.dropLast.map fun line =>
    if line.getLast? = some '\r' then line.dropLast else line
  let rest := parts.getLast?.filter fun line => !line.isEmpty
  (ended ++ rest.toList).map .ofList

def isAscii (s : String) : Bool := s.toList.all fun c => c.toNat < 128

def startsWith (pre s : String) : Bool := pre.toList.isPrefixOf s.toList

def endsWith (suf s : String) : Bool := suf.toList.isSuffixOf s.toList

def containsChars (part : List Char) : List Char → Bool
  | [] => part.isEmpty
  | c :: cs => part.isPrefixOf (c :: cs) || containsChars part cs

/-- `str::contains` with a text to look for. -/
def contains (part s : String) : Bool := containsChars part.toList s.toList

theorem containsChars_iff {part cs : List Char} : containsChars part cs = true ↔ part <:+: cs := by
  induction cs with
  | nil => rw [containsChars, List.isEmpty_iff, List.infix_nil]
  | cons c cs ih =>
    rw [containsChars, Bool.or_eq_true, List.isPrefixOf_iff_prefix, ih, List.infix_cons_iff]

/-- `str::to_lowercase` on the ASCII letters. -/
def toLowercase (s : String) : String := .ofList (s.toList.map Char.toLower)

def natOfDigits (cs : List Char) : Nat := cs.foldl (fun n c => 10 * n + (c.toNat - '0'.toNat)) 0

/-- `u64::from_str`: an optional plus sign, then at least one digit, below `2 ^ 64`. -/
def parseU64 (s : String) : Option Nat :=
  let digits :=
    match s.toList with
    | '+' :: rest => rest
    | cs => cs
  if digits.isEmpty || !digits.all Char.isDigit then none
  else if natOfDigits digits < UInt64.size then some (natOfDigits digits)
  else none

/-- `u32::from_str`. -/
def parseU32 (s : String) : Option Nat := (parseU64 s).filter fun n => n < UInt32.size

/-- `u8::from_str`. -/
def parseU8 (s : String) : Option Nat := (parseU64 s).filter fun n => n < UInt8.size

/-- `i64::from_str`: an unsigned number, or a minus sign and at least one digit. -/
def parseI64 (s : String) : Option Int :=
  match s.toList with
  | '-' :: digits =>
      if digits.isEmpty || !digits.all Char.isDigit then none
      else if natOfDigits digits ≤ 9223372036854775808 then some (-(natOfDigits digits : Int))
      else none
  | _ => (parseU64 s).bind fun n => if n < 9223372036854775808 then some (n : Int) else none

/-- `str::trim_end_matches` with one character. -/
def trimEndMatches (c : Char) (s : String) : String :=
  .ofList (s.toList.reverse.dropWhile (· == c)).reverse

def escapeChar (c : Char) : List Char :=
  if c = '"' then ['\\', '"']
  else if c = '\\' then ['\\', '\\']
  else if c = '\n' then ['\\', 'n']
  else if c = '\r' then ['\\', 'r']
  else if c = '\t' then ['\\', 't']
  else if c = Char.ofNat 0 then ['\\', '0']
  else [c]

/-- The `Debug` form of a text: quoted, with the common escapes. -/
def debug (s : String) : String := .ofList (['"'] ++ s.toList.flatMap escapeChar ++ ['"'])

def debugList (ss : List String) : String := "[" ++ ", ".intercalate (ss.map debug) ++ "]"

theorem splitOnceChars_append {c : Char} {before : List Char} (hc : c ∉ before)
    (after : List Char) : splitOnceChars c (before ++ c :: after) = some (before, after) := by
  induction before with
  | nil => simp [splitOnceChars]
  | cons x before ih =>
    have hx : x ≠ c := fun h => hc (by simp [h])
    have hrest : c ∉ before := fun h => hc (List.mem_cons_of_mem x h)
    simp [splitOnceChars, hx, ih hrest]

theorem notMem_of_splitOnceChars {c : Char} {cs before after : List Char}
    (h : splitOnceChars c cs = some (before, after)) : c ∉ before := by
  induction cs generalizing before with
  | nil => simp [splitOnceChars] at h
  | cons x cs ih =>
    unfold splitOnceChars at h
    split at h
    · cases h
      simp
    · rename_i hx
      obtain ⟨⟨before', after'⟩, hsplit, heq⟩ := Option.map_eq_some_iff.mp h
      cases heq
      intro hmem
      rcases List.mem_cons.mp hmem with rfl | hmem
      · exact hx rfl
      · exact ih hsplit hmem

theorem splitOnceChars_eq_none_iff {c : Char} {cs : List Char} :
    splitOnceChars c cs = none ↔ c ∉ cs := by
  induction cs with
  | nil => simp [splitOnceChars]
  | cons x cs ih =>
    unfold splitOnceChars
    by_cases hx : x = c
    · simp [hx]
    · simp [hx, ih, Ne.symm hx]

theorem splitOnceChars_eq_some_iff {c : Char} {cs before after : List Char} :
    splitOnceChars c cs = some (before, after) ↔ cs = before ++ c :: after ∧ c ∉ before := by
  constructor
  · intro h
    refine ⟨?_, notMem_of_splitOnceChars h⟩
    induction cs generalizing before with
    | nil => simp [splitOnceChars] at h
    | cons x cs ih =>
      unfold splitOnceChars at h
      split at h
      · rename_i hx
        cases h
        rw [hx, List.nil_append]
      · obtain ⟨⟨before', after'⟩, hsplit, heq⟩ := Option.map_eq_some_iff.mp h
        cases heq
        rw [ih hsplit, List.cons_append]
  · rintro ⟨rfl, hc⟩
    exact splitOnceChars_append hc after

theorem splitOnce_eq_some_iff {s before after : String} :
    splitOnce '/' s = some (before, after) ↔ s = before ++ "/" ++ after ∧ '/' ∉ before.toList := by
  have hjoin : s = before ++ "/" ++ after ↔ s.toList = before.toList ++ '/' :: after.toList := by
    rw [← String.toList_inj]
    simp
  rw [hjoin, ← splitOnceChars_eq_some_iff, splitOnce, Option.map_eq_some_iff]
  constructor
  · rintro ⟨⟨before', after'⟩, hsplit, heq⟩
    cases heq
    simpa using hsplit
  · intro hsplit
    exact ⟨_, hsplit, by simp⟩

theorem splitOnce_isSome_iff {c : Char} {s : String} :
    (splitOnce c s).isSome = true ↔ c ∈ s.toList := by
  simp [splitOnce, Option.isSome_iff_ne_none, splitOnceChars_eq_none_iff]

theorem rsplitOnce_join (a : String) {b : String} (hb : '/' ∉ b.toList) :
    rsplitOnce '/' (a ++ "/" ++ b) = some (a, b) := by
  have hb' : '/' ∉ b.toList.reverse := by simpa using hb
  simp [rsplitOnce, splitOnceChars_append hb']

theorem notMem_of_rsplitOnce {s before after : String}
    (h : rsplitOnce '/' s = some (before, after)) : '/' ∉ after.toList := by
  obtain ⟨⟨after', before'⟩, hsplit, heq⟩ := Option.map_eq_some_iff.mp h
  cases heq
  simpa using notMem_of_splitOnceChars hsplit

section Words

variable {sep : Char → Bool} {w blanks : List Char}

theorem splitWhen_of_all (hw : ∀ c ∈ w, sep c = false) : splitWhen sep w = [w] := by
  induction w with
  | nil => rfl
  | cons x w ih =>
    obtain ⟨hx, hrest⟩ := List.forall_mem_cons.mp hw
    simp [splitWhen, hx, ih hrest]

theorem splitWhen_append {b : Char} (hw : ∀ c ∈ w, sep c = false) (hb : sep b = true)
    (rest : List Char) : splitWhen sep (w ++ b :: rest) = w :: splitWhen sep rest := by
  induction w with
  | nil => simp [splitWhen, hb]
  | cons x w ih =>
    obtain ⟨hx, hrest⟩ := List.forall_mem_cons.mp hw
    simp [splitWhen, hx, ih hrest]

theorem filter_splitWhen_blanks (hblanks : ∀ c ∈ blanks, sep c = true) (rest : List Char) :
    (splitWhen sep (blanks ++ rest)).filter (fun word => !word.isEmpty) =
      (splitWhen sep rest).filter fun word => !word.isEmpty := by
  induction blanks with
  | nil => rfl
  | cons b blanks ih =>
    obtain ⟨hb, hrest⟩ := List.forall_mem_cons.mp hblanks
    rw [List.cons_append, splitWhen, if_pos hb, List.filter_cons_of_neg (by simp)]
    exact ih hrest

end Words

section Parts

variable {c : Char} {w : List Char}

theorem splitChars_eq_splitWhen : splitChars c w = splitWhen (fun x => x == c) w := by
  induction w with
  | nil => rfl
  | cons x w ih => simp [splitChars, splitWhen, ih]

theorem beq_eq_false_of_notMem (hc : c ∉ w) : ∀ x ∈ w, (x == c) = false := by
  intro x hx
  rw [beq_eq_false_iff_ne]
  rintro rfl
  exact hc hx

theorem splitChars_of_notMem (hc : c ∉ w) : splitChars c w = [w] := by
  rw [splitChars_eq_splitWhen]
  exact splitWhen_of_all (beq_eq_false_of_notMem hc)

theorem splitChars_append (hc : c ∉ w) (rest : List Char) :
    splitChars c (w ++ c :: rest) = w :: splitChars c rest := by
  rw [splitChars_eq_splitWhen, splitChars_eq_splitWhen]
  exact splitWhen_append (beq_eq_false_of_notMem hc) (by simp) rest

theorem eq_of_splitChars {part : List Char} {parts : List (List Char)}
    (h : splitChars c w = part :: parts) : w = part ++ parts.flatMap fun p => c :: p := by
  induction w generalizing part parts with
  | nil =>
    cases h
    rfl
  | cons x w ih =>
    unfold splitChars at h
    split at h
    · rename_i hx
      cases h
      obtain ⟨p, ps, hsplit⟩ := List.exists_cons_of_ne_nil (splitChars_ne_nil c w)
      rw [hsplit, List.flatMap_cons, hx, ih hsplit]
      simp
    · split at h
      · rename_i hnil
        exact absurd hnil (splitChars_ne_nil c w)
      · rename_i p ps hsplit
        cases h
        rw [ih hsplit]
        rfl

theorem split_injective (c : Char) : Function.Injective (split c) := by
  intro s s' h
  obtain ⟨part, parts, hsplit⟩ := List.exists_cons_of_ne_nil (splitChars_ne_nil c s.toList)
  have hsplit' : splitChars c s'.toList = part :: parts := by
    rw [← hsplit]
    exact (List.map_inj_right fun _ _ => String.ofList_inj.mp).mp h.symm
  rw [← String.toList_inj, eq_of_splitChars hsplit, eq_of_splitChars hsplit']

theorem mem_of_splitChars (sep : Char) {c : Char} {w : List Char} (hc : c ∈ w) :
    c = sep ∨ ∃ part ∈ splitChars sep w, c ∈ part := by
  obtain ⟨part, parts, hsplit⟩ := List.exists_cons_of_ne_nil (splitChars_ne_nil sep w)
  rw [eq_of_splitChars hsplit] at hc
  rw [hsplit]
  rcases List.mem_append.mp hc with hc | hc
  · exact .inr ⟨part, List.mem_cons_self, hc⟩
  · obtain ⟨p, hp, hc⟩ := List.mem_flatMap.mp hc
    rcases List.mem_cons.mp hc with rfl | hc
    · exact .inl rfl
    · exact .inr ⟨p, List.mem_cons_of_mem _ hp, hc⟩

theorem splitChars_cons_cons {part next : List Char} {parts : List (List Char)} (hc : c ∉ part)
    (h : splitChars c w = part :: next :: parts) :
    ∃ rest, w = part ++ c :: rest ∧ splitChars c rest = next :: parts := by
  have hw : w = part ++ c :: (next ++ parts.flatMap fun p => c :: p) := by
    rw [eq_of_splitChars h, List.flatMap_cons, List.cons_append]
  refine ⟨_, hw, ?_⟩
  rw [hw, splitChars_append hc] at h
  exact (List.cons.inj h).2

theorem splitChars_flatMap {ws : List (List Char)} (hws : ∀ x ∈ ws, c ∉ x) (rest : List Char) :
    splitChars c (ws.flatMap (fun x => x ++ [c]) ++ rest) = ws ++ splitChars c rest := by
  induction ws with
  | nil => rfl
  | cons x ws ih =>
    obtain ⟨hx, hrest⟩ := List.forall_mem_cons.mp hws
    rw [List.flatMap_cons, List.append_assoc, List.append_assoc, List.singleton_append,
      splitChars_append hx, ih hrest, List.cons_append]

end Parts

section Blanks

variable {s t : String}

def Padded (s t : String) : Prop :=
  ∃ before after : List Char, (∀ c ∈ before, isWhitespace c = true) ∧
    (∀ c ∈ after, isWhitespace c = true) ∧ s.toList = before ++ t.toList ++ after

theorem padded_trim (s : String) : Padded s (trim s) := by
  let rest := s.toList.dropWhile isWhitespace
  refine ⟨s.toList.takeWhile isWhitespace, (rest.reverse.takeWhile isWhitespace).reverse,
    fun c hc => List.mem_takeWhile_imp hc, fun c hc => ?_, ?_⟩
  · exact List.mem_takeWhile_imp (List.mem_reverse.mp hc)
  · have hrest : rest = (rest.reverse.dropWhile isWhitespace).reverse ++
        (rest.reverse.takeWhile isWhitespace).reverse := by
      rw [← List.reverse_append, List.takeWhile_append_dropWhile, List.reverse_reverse]
    have htrim : (trim s).toList = (rest.reverse.dropWhile isWhitespace).reverse := by simp [trim, rest]
    rw [htrim, List.append_assoc, ← hrest, List.takeWhile_append_dropWhile]

theorem dropWhile_of_all_false {p : Char → Bool} {w : List Char} (hw : ∀ c ∈ w, p c = false) :
    w.dropWhile p = w := by
  cases w with
  | nil => rfl
  | cons c w => rw [List.dropWhile_cons_of_neg (by simp [hw c List.mem_cons_self])]

theorem Padded.trim_eq (h : Padded s t) (ht : ∀ c ∈ t.toList, isWhitespace c = false) : trim s = t := by
  obtain ⟨before, after, hbefore, hafter, heq⟩ := h
  rw [← String.toList_inj, trim, heq, String.toList_ofList, List.append_assoc,
    List.dropWhile_append_of_pos hbefore]
  cases htext : t.toList with
  | nil =>
    have hnil : after.dropWhile isWhitespace = [] := List.dropWhile_eq_nil_iff.mpr hafter
    rw [List.nil_append, hnil]
    rfl
  | cons c w =>
    rw [htext] at ht
    have hfirst : ((c :: w) ++ after).dropWhile isWhitespace = (c :: w) ++ after :=
      List.dropWhile_cons_of_neg (by simp [ht c List.mem_cons_self])
    have hblanks : ∀ x ∈ after.reverse, isWhitespace x = true := by simpa using hafter
    have hword : ∀ x ∈ (c :: w).reverse, isWhitespace x = false :=
      fun x hx => ht x (List.mem_reverse.mp hx)
    rw [hfirst, List.reverse_append, List.dropWhile_append_of_pos hblanks,
      dropWhile_of_all_false hword, List.reverse_reverse]

end Blanks

section Numbers

variable {s : String} {n : Nat}

theorem parseU64_eq_some_iff : parseU64 s = some n ↔ ∃ digits : List Char, digits ≠ [] ∧
    (∀ c ∈ digits, c.isDigit = true) ∧ (s.toList = digits ∨ s.toList = '+' :: digits) ∧
      natOfDigits digits = n ∧ n < UInt64.size := by
  have hread : ∀ digits : List Char, (if digits.isEmpty || !digits.all Char.isDigit then none
      else if natOfDigits digits < UInt64.size then some (natOfDigits digits) else none) = some n ↔
        digits ≠ [] ∧ (∀ c ∈ digits, c.isDigit = true) ∧ natOfDigits digits = n ∧ n < UInt64.size := by
    intro digits
    split
    · rename_i hbad
      refine ⟨(nomatch ·), fun ⟨hne, hall, _⟩ => ?_⟩
      simp [hne, List.all_eq_true.mpr hall] at hbad
    · rename_i hgood
      obtain ⟨hne, hall⟩ : digits ≠ [] ∧ ∀ c ∈ digits, c.isDigit = true := by simpa using hgood
      split
      · rename_i hlt
        refine ⟨fun h => ?_, fun ⟨_, _, heq, _⟩ => congrArg some heq⟩
        obtain rfl := Option.some.inj h
        exact ⟨hne, hall, rfl, hlt⟩
      · rename_i hge
        exact ⟨(nomatch ·), fun ⟨_, _, heq, hlt⟩ => absurd (heq ▸ hlt) hge⟩
  unfold parseU64
  split
  · rename_i rest hplus
    rw [hread rest]
    constructor
    · rintro ⟨hne, hall, heq⟩
      exact ⟨rest, hne, hall, .inr hplus, heq⟩
    · rintro ⟨digits, hne, hall, htext, heq⟩
      rcases htext with htext | htext
      · rw [← htext, hplus] at hall
        exact absurd (hall '+' List.mem_cons_self) (by decide)
      · obtain rfl : rest = digits := (List.cons.inj (hplus.symm.trans htext)).2
        exact ⟨hne, hall, heq⟩
  · rename_i hplus
    rw [hread s.toList]
    constructor
    · rintro ⟨hne, hall, heq⟩
      exact ⟨s.toList, hne, hall, .inl rfl, heq⟩
    · rintro ⟨digits, hne, hall, htext, heq⟩
      rcases htext with rfl | htext
      · exact ⟨hne, hall, heq⟩
      · exact absurd htext (hplus digits)

end Numbers

example : rsplitOnce '/' "bootstrap.cluster.x-k8s.io/v1beta2" =
    some ("bootstrap.cluster.x-k8s.io", "v1beta2") := by decide

example : split '.' "status.drained" = ["status", "drained"] := by decide

example : lines "a\r\n\nb" = ["a", "", "b"] := by decide

example : splitWhitespace "  U  malloc " = ["U", "malloc"] := by decide

end FiveSpot.Text
