import FiveSpot.Data.Json
import FiveSpot.Data.Text

/-!
# JSON as text

The compact printer of `serde_json`, what is asked of a library that reads JSON texts, and a parser, on
lists of characters, that has it. The parser has the fuel of its input's length, since every step takes
a character.
-/

namespace FiveSpot.Json

set_option autoImplicit false

/-- A printed character; those a JSON text cannot hold are escaped. -/
def escapeChar (c : Char) : List Char :=
  if c = '"' then ['\\', '"']
  else if c = '\\' then ['\\', '\\']
  else if c = '\n' then ['\\', 'n']
  else if c = '\r' then ['\\', 'r']
  else if c = '\t' then ['\\', 't']
  else if c.toNat = 0x08 then ['\\', 'b']
  else if c.toNat = 0x0C then ['\\', 'f']
  else if c.toNat < 0x20 then
    ['\\', 'u', '0', '0', Nat.digitChar (c.toNat / 16), Nat.digitChar (c.toNat % 16)]
  else [c]

def renderChars (s : String) : List Char := '"' :: (s.toList.flatMap escapeChar ++ ['"'])

def renderMembers : List (String × String) → List Char
  | [] => []
  | [(k, v)] => renderChars k ++ ':' :: renderChars v
  | (k, v) :: rest => renderChars k ++ ':' :: (renderChars v ++ ',' :: renderMembers rest)

def renderObject (members : List (String × String)) : String :=
  .ofList ('{' :: (renderMembers members ++ ['}']))

def isSpace (c : Char) : Bool := c == ' ' || c == '\n' || c == '\t' || c == '\r'

def skipSpace (cs : List Char) : List Char := cs.dropWhile isSpace

def hexDigit (c : Char) : Option Nat :=
  if '0' ≤ c ∧ c ≤ '9' then some (c.toNat - '0'.toNat)
  else if 'a' ≤ c ∧ c ≤ 'f' then some (c.toNat - 'a'.toNat + 10)
  else if 'A' ≤ c ∧ c ≤ 'F' then some (c.toNat - 'A'.toNat + 10)
  else none

def parseHex : List Char → Option (Nat × List Char)
  | a :: b :: c :: d :: rest => do
      let n := ((← hexDigit a) * 16 + (← hexDigit b)) * 16 + (← hexDigit c)
      return (n * 16 + (← hexDigit d), rest)
  | _ => none

/-- A code unit and, for a leading surrogate, the trailing one it needs. -/
def parseUnicode (cs : List Char) : Option (Char × List Char) := do
  let (n, rest) ← parseHex cs
  if 0xDC00 ≤ n ∧ n ≤ 0xDFFF then none
  else if 0xD800 ≤ n ∧ n ≤ 0xDBFF then
    match rest with
    | '\\' :: 'u' :: rest => do
        let (m, rest) ← parseHex rest
        if 0xDC00 ≤ m ∧ m ≤ 0xDFFF then
          return (.ofNat ((n - 0xD800) * 0x400 + (m - 0xDC00) + 0x10000), rest)
        else none
    | _ => none
  else return (.ofNat n, rest)

def parseEscape : List Char → Option (Char × List Char)
  | '"' :: rest => some ('"', rest)
  | '\\' :: rest => some ('\\', rest)
  | '/' :: rest => some ('/', rest)
  | 'b' :: rest => some (.ofNat 0x08, rest)
  | 'f' :: rest => some (.ofNat 0x0C, rest)
  | 'n' :: rest => some ('\n', rest)
  | 'r' :: rest => some ('\r', rest)
  | 't' :: rest => some ('\t', rest)
  | 'u' :: rest => parseUnicode rest
  | _ => none

def parseChars : Nat → List Char → Option (List Char × List Char)
  | 0, _ => none
  | _ + 1, [] => none
  | fuel + 1, c :: rest =>
      if c = '"' then some ([], rest)
      else if c = '\\' then do
        let (c, rest) ← parseEscape rest
        let (cs, rest) ← parseChars fuel rest
        return (c :: cs, rest)
      else if c.toNat < 0x20 then none
      else do
        let (cs, rest) ← parseChars fuel rest
        return (c :: cs, rest)

def digits (cs : List Char) : List Char × List Char := cs.span Char.isDigit

/-- The digits before the point: none but a single one starts with a zero. -/
def parseInteger (cs : List Char) : Option (List Char × List Char) :=
  match digits cs with
  | ([], _) => none
  | ('0' :: _ :: _, _) => none
  | (ds, rest) => some (ds, rest)

/-- A mark and the digits it needs, or nothing. -/
def parseFraction : List Char → Option (List Char × List Char)
  | '.' :: rest =>
      match digits rest with
      | ([], _) => none
      | (ds, rest) => some ('.' :: ds, rest)
  | rest => some ([], rest)

def parseExponentSign : List Char → List Char × List Char
  | '+' :: rest => (['+'], rest)
  | '-' :: rest => (['-'], rest)
  | rest => ([], rest)

def parseExponent : List Char → Option (List Char × List Char)
  | c :: rest =>
      if c = 'e' ∨ c = 'E' then
        match digits (parseExponentSign rest).2 with
        | ([], _) => none
        | (ds, after) => some (c :: ((parseExponentSign rest).1 ++ ds), after)
      else some ([], c :: rest)
  | [] => some ([], [])

def parseUnsigned (negative : Bool) (cs : List Char) : Option (Json × List Char) := do
  let (whole, rest) ← parseInteger cs
  let (fraction, rest) ← parseFraction rest
  let (exponent, rest) ← parseExponent rest
  if fraction.isEmpty && exponent.isEmpty then
    let n : Int := Text.natOfDigits whole
    return (.int (if negative then -n else n), rest)
  else
    let sign := if negative then ['-'] else []
    return (.float (.ofList (sign ++ whole ++ fraction ++ exponent)), rest)

/-- A value that is not made of others, a text apart. -/
def parseScalar : List Char → Option (Json × List Char)
  | 'n' :: 'u' :: 'l' :: 'l' :: rest => some (.null, rest)
  | 't' :: 'r' :: 'u' :: 'e' :: rest => some (.bool true, rest)
  | 'f' :: 'a' :: 'l' :: 's' :: 'e' :: rest => some (.bool false, rest)
  | '-' :: rest => parseUnsigned true rest
  | rest => parseUnsigned false rest

mutual

def parseValue : Nat → List Char → Option (Json × List Char)
  | 0, _ => none
  | fuel + 1, cs =>
      match skipSpace cs with
      | '"' :: rest => (parseChars rest.length rest).map fun (cs, rest) => (.str (.ofList cs), rest)
      | '[' :: rest =>
          match skipSpace rest with
          | ']' :: rest => some (.arr [], rest)
          | rest => (parseItems fuel rest).map fun (items, rest) => (.arr items, rest)
      | '{' :: rest =>
          match skipSpace rest with
          | '}' :: rest => some (.obj [], rest)
          | rest => (parseMembers fuel rest).map fun (members, rest) => (.obj members, rest)
      | rest => parseScalar rest

def parseItems : Nat → List Char → Option (List Json × List Char)
  | 0, _ => none
  | fuel + 1, cs => do
      let (item, rest) ← parseValue fuel cs
      match skipSpace rest with
      | ',' :: rest => (parseItems fuel rest).map fun (items, rest) => (item :: items, rest)
      | ']' :: rest => some ([item], rest)
      | _ => none

def parseMembers : Nat → List Char → Option (List (String × Json) × List Char)
  | 0, _ => none
  | fuel + 1, cs =>
      match skipSpace cs with
      | '"' :: rest => do
          let (key, rest) ← parseChars rest.length rest
          match skipSpace rest with
          | ':' :: rest => do
              let (value, rest) ← parseValue fuel rest
              let member := (String.ofList key, value)
              match skipSpace rest with
              | ',' :: rest =>
                  (parseMembers fuel rest).map fun (members, rest) => (member :: members, rest)
              | '}' :: rest => some ([member], rest)
              | _ => none
          | _ => none
      | _ => none

end

/-- `serde_json::from_str`: one value and nothing after it but space. -/
def parse (text : String) : Option Json :=
  match parseValue (text.toList.length + 1) text.toList with
  | some (value, rest) => if (skipSpace rest).isEmpty then some value else none
  | none => none

/-- A library that reads JSON texts, and reads back the objects of texts that it prints. -/
structure Reader where
  fromStr : String → Option Json
  fromStr_renderObject : ∀ {members : List (String × String)}, members ≠ [] →
    fromStr (renderObject members) = some (.obj (members.map fun m => (m.1, .str m.2)))

section RoundTrip

variable {fuel : Nat} {rest : List Char}

theorem hexDigit_digitChar : ∀ n < 16, hexDigit (Nat.digitChar n) = some n := by decide

theorem parseEscape_control {c : Char} (h : c.toNat < 0x20) :
    parseEscape ('u' :: '0' :: '0' :: Nat.digitChar (c.toNat / 16) ::
      Nat.digitChar (c.toNat % 16) :: rest) = some (c, rest) := by
  have hhigh := hexDigit_digitChar (c.toNat / 16) (by omega)
  have hlow := hexDigit_digitChar (c.toNat % 16) (by omega)
  have hzero : hexDigit '0' = some 0 := by decide
  have hvalue : c.toNat / 16 * 16 + c.toNat % 16 = c.toNat := by omega
  have hplain : ¬ (0xDC00 ≤ c.toNat ∧ c.toNat ≤ 0xDFFF) := by omega
  have hplain' : ¬ (0xD800 ≤ c.toNat ∧ c.toNat ≤ 0xDBFF) := by omega
  simp [parseEscape, parseUnicode, parseHex, hhigh, hlow, hzero, hvalue, hplain, hplain',
    Char.ofNat_toNat]

theorem parseChars_escapeChar (c : Char) :
    parseChars (fuel + 1) (escapeChar c ++ rest) =
      (parseChars fuel rest).map fun read => (c :: read.1, read.2) := by
  have hescaped : ∀ cs, parseEscape cs = some (c, rest) →
      parseChars (fuel + 1) ('\\' :: cs) =
        (parseChars fuel rest).map fun read => (c :: read.1, read.2) := by
    intro cs hcs
    have hquote : ('\\' : Char) ≠ '"' := by decide
    rw [parseChars, if_neg hquote, if_pos rfl, hcs]
    simp only [Option.bind_eq_bind, Option.bind_some]
    cases parseChars fuel rest <;> rfl
  unfold escapeChar
  split
  · rename_i hc
    exact hescaped _ (by rw [hc]; rfl)
  split
  · rename_i hc
    exact hescaped _ (by rw [hc]; rfl)
  split
  · rename_i hc
    exact hescaped _ (by rw [hc]; rfl)
  split
  · rename_i hc
    exact hescaped _ (by rw [hc]; rfl)
  split
  · rename_i hc
    exact hescaped _ (by rw [hc]; rfl)
  split
  · rename_i hc
    exact hescaped _ (by rw [← Char.ofNat_toNat c, hc]; rfl)
  split
  · rename_i hc
    exact hescaped _ (by rw [← Char.ofNat_toNat c, hc]; rfl)
  split
  · rename_i hc
    exact hescaped _ (parseEscape_control hc)
  · rename_i hquote hslash _ _ _ _ _ hcontrol
    rw [List.singleton_append, parseChars, if_neg hquote, if_neg hslash, if_neg hcontrol]
    cases parseChars fuel rest <;> rfl

theorem parseChars_render {cs : List Char} (h : cs.length < fuel) :
    parseChars fuel (cs.flatMap escapeChar ++ '"' :: rest) = some (cs, rest) := by
  obtain ⟨fuel, rfl⟩ : ∃ n, fuel = n + 1 := ⟨fuel - 1, by omega⟩
  induction cs generalizing fuel with
  | nil => rfl
  | cons c cs ih =>
    obtain ⟨fuel, rfl⟩ : ∃ n, fuel = n + 1 := ⟨fuel - 1, by simp at h; omega⟩
    rw [List.flatMap_cons, List.append_assoc, parseChars_escapeChar, ih fuel (by simpa using h)]
    rfl

theorem length_le_flatMap_escapeChar (cs : List Char) :
    cs.length ≤ (cs.flatMap escapeChar).length := by
  induction cs with
  | nil => simp
  | cons c cs ih =>
    have hpos : 0 < (escapeChar c).length := by
      unfold escapeChar
      repeat' split
      all_goals simp
    simp only [List.flatMap_cons, List.length_append, List.length_cons]
    omega

theorem parseChars_quoted (s : String) :
    parseChars (s.toList.flatMap escapeChar ++ '"' :: rest).length
      (s.toList.flatMap escapeChar ++ '"' :: rest) = some (s.toList, rest) := by
  refine parseChars_render ?_
  have hlength := length_le_flatMap_escapeChar s.toList
  simp only [List.length_append, List.length_cons]
  omega

theorem renderChars_append (s : String) :
    renderChars s ++ rest = '"' :: (s.toList.flatMap escapeChar ++ '"' :: rest) := by
  simp [renderChars]

theorem parseValue_renderChars (s : String) :
    parseValue (fuel + 1) (renderChars s ++ rest) = some (.str s, rest) := by
  have hspace : skipSpace ('"' :: (s.toList.flatMap escapeChar ++ '"' :: rest)) =
      '"' :: (s.toList.flatMap escapeChar ++ '"' :: rest) := rfl
  rw [renderChars_append, parseValue, hspace]
  simp only [parseChars_quoted, Option.map_some, String.ofList_toList]

theorem skipSpace_quote (cs : List Char) : skipSpace ('"' :: cs) = '"' :: cs := rfl

theorem skipSpace_colon (cs : List Char) : skipSpace (':' :: cs) = ':' :: cs := rfl

theorem skipSpace_comma (cs : List Char) : skipSpace (',' :: cs) = ',' :: cs := rfl

theorem skipSpace_close (cs : List Char) : skipSpace ('}' :: cs) = '}' :: cs := rfl

theorem parseMembers_more (k v : String) :
    parseMembers (fuel + 2) (renderChars k ++ ':' :: (renderChars v ++ ',' :: rest)) =
      (parseMembers (fuel + 1) rest).map fun read => ((k, .str v) :: read.1, read.2) := by
  rw [renderChars_append, parseMembers, skipSpace_quote]
  simp only [parseChars_quoted, Option.bind_eq_bind, Option.bind_some, skipSpace_colon,
    parseValue_renderChars, skipSpace_comma, String.ofList_toList]

theorem parseMembers_last (k v : String) :
    parseMembers (fuel + 2) (renderChars k ++ ':' :: (renderChars v ++ '}' :: rest)) =
      some ([(k, .str v)], rest) := by
  rw [renderChars_append, parseMembers, skipSpace_quote]
  simp only [parseChars_quoted, Option.bind_eq_bind, Option.bind_some, skipSpace_colon,
    parseValue_renderChars, skipSpace_close, String.ofList_toList]

theorem parseMembers_render {members : List (String × String)} (hne : members ≠ [])
    (h : members.length < fuel) :
    parseMembers fuel (renderMembers members ++ '}' :: rest) =
      some (members.map fun m => (m.1, .str m.2), rest) := by
  induction members generalizing fuel with
  | nil => exact absurd rfl hne
  | cons member members ih =>
    obtain ⟨k, v⟩ := member
    obtain ⟨fuel, rfl⟩ : ∃ n, fuel = n + 2 := ⟨fuel - 2, by simp at h; omega⟩
    cases members with
    | nil =>
      simp only [renderMembers, List.append_assoc, List.cons_append, parseMembers_last, List.map_cons,
        List.map_nil]
    | cons member' members =>
      have hlength : (member' :: members).length < fuel + 1 := by
        simp only [List.length_cons] at h ⊢
        omega
      have hrest := ih (by simp) hlength
      simp only [renderMembers, List.append_assoc, List.cons_append]
      rw [parseMembers_more, hrest]
      rfl

theorem length_le_renderMembers (members : List (String × String)) :
    members.length ≤ (renderMembers members).length := by
  induction members with
  | nil => simp [renderMembers]
  | cons member members ih =>
    cases members with
    | nil => simp [renderMembers, renderChars]
    | cons member' members =>
      simp only [renderMembers, List.length_append, List.length_cons] at ih ⊢
      omega

theorem exists_renderMembers {members : List (String × String)} (hne : members ≠ []) :
    ∃ cs, renderMembers members = '"' :: cs := by
  obtain ⟨⟨k, v⟩, rest, rfl⟩ := List.exists_cons_of_ne_nil hne
  cases rest with
  | nil => exact ⟨_, rfl⟩
  | cons member rest => exact ⟨_, rfl⟩

theorem parseValue_members (cs : List Char) :
    parseValue (fuel + 1) ('{' :: '"' :: cs) =
      (parseMembers fuel ('"' :: cs)).map fun read => (.obj read.1, read.2) := by
  have hopen : skipSpace ('{' :: '"' :: cs) = '{' :: '"' :: cs := rfl
  rw [parseValue, hopen]
  simp only [skipSpace_quote]
  rfl

theorem parse_renderObject {members : List (String × String)} (hne : members ≠ []) :
    parse (renderObject members) = some (.obj (members.map fun m => (m.1, .str m.2))) := by
  obtain ⟨cs, hcs⟩ := exists_renderMembers hne
  have hmembers : parseMembers ('{' :: (renderMembers members ++ ['}'])).length
      (renderMembers members ++ ['}']) = some (members.map fun m => (m.1, .str m.2), []) := by
    refine parseMembers_render hne ?_
    have hlength := length_le_renderMembers members
    simp only [List.length_cons, List.length_append]
    omega
  unfold parse renderObject
  rw [hcs, List.cons_append] at hmembers ⊢
  rw [String.toList_ofList, parseValue_members, hmembers]
  rfl

def reader : Reader := ⟨parse, parse_renderObject⟩

end RoundTrip

end FiveSpot.Json
