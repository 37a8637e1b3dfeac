import FiveSpot.Data.Text
import FiveSpot.Vex.Presence

/-!
# Statements about functions that are not imported

`auto_vex_reachability.rs`: the symbols a binary imports are read from a listing of `nm`, and a CVE is
said not to be in the execute path when none of its functions is among them.
-/

namespace FiveSpot.Vex

set_option autoImplicit false

/-- A token of one byte, and that a letter. -/
def isTypeColumn (token : String) : Bool :=
  token.utf8ByteSize == 1 && token.toList.head?.any Char.isAlpha

def parseNmLine (line : String) : Option String :=
  let trimmed := Text.trim line
  if trimmed.isEmpty || Text.startsWith "#" trimmed then none
  else
    let tokens := Text.splitWhitespace trimmed
    match tokens.findIdx? isTypeColumn with
    | none => none
    | some typeIdx =>
        if tokens[typeIdx]? != some "U" then none
        else
          match tokens[typeIdx + 1]? with
          | none => none
          | some name =>
              let bare := ((Text.splitOnce '@' name).map Prod.fst).getD name
              if bare.isEmpty then none else some bare

def parseNmOutput (input : String) : List String := (Text.lines input).filterMap parseNmLine

def vulnerableCodeNotInExecutePath : String := "vulnerable_code_not_in_execute_path"

def autoImpactPrefix : String :=
  "Auto-derived by auto-vex-reachability: the Rust controller binary's " ++
    "dynamic symbol-import table contains none of the documented entry " ++
    "points for this CVE"

def reachabilityStatement (productPurl statementTimestamp cve : String) (fns : List String) :
    Statement where
  vulnerability := ⟨cve⟩
  products := [⟨productPurl⟩]
  status := statusNotAffected
  justification := some vulnerableCodeNotInExecutePath
  impactStatement := some ( autoImpactPrefix ++ " (" ++ ", ".intercalate fns ++
    "). The dynamic symbol-import table was inspected via " ++
    "`nm -D --undefined-only` against the release artifact; " ++
    "none of the listed entry points were found.")
  timestamp := statementTimestamp

section Computing

variable (importedSymbols : List String) (affectedFunctions : OrderedMap String (List String))
  (alreadyTriaged : List String) (productPurl statementTimestamp : String)

/-- One turn of the loop over the matches, with the CVEs emitted so far and their statements. -/
def reachabilityStep (state : OrderedMap String Unit × OrderedMap String Statement) (m : GrypeMatch) :
    OrderedMap String Unit × OrderedMap String Statement :=
  let cve := m.vulnerability.id
  if alreadyTriaged.contains cve then state
  else if state.1.contains cve then state
  else
    match affectedFunctions.get? cve with
    | none => state
    | some fns =>
        if fns.isEmpty then state
        else if fns.any importedSymbols.contains then state
        else
          (state.1.insert cve (),
            state.2.insert cve (reachabilityStatement productPurl statementTimestamp cve fns))

def computeReachabilityVex (grype : GrypeReport) : List Statement :=
  (grype.found.foldl
    (reachabilityStep importedSymbols affectedFunctions alreadyTriaged productPurl statementTimestamp)
    (.empty, .empty)).2.values

end Computing

section Emission

variable {importedSymbols : List String} {affectedFunctions : OrderedMap String (List String)}
  {alreadyTriaged : List String} {productPurl statementTimestamp : String} {grype : GrypeReport}

/-- The mapping has functions for the CVE, and none of them is imported. -/
def Unreached (importedSymbols : List String) (affectedFunctions : OrderedMap String (List String))
    (cve : String) : Prop :=
  ∃ fns, affectedFunctions.get? cve = some fns ∧ fns ≠ [] ∧ ∀ f ∈ fns, f ∉ importedSymbols

instance (cve : String) : Decidable (Unreached importedSymbols affectedFunctions cve) :=
  decidable_of_iff ((affectedFunctions.get? cve).any fun fns =>
    fns ≠ [] ∧ ∀ f ∈ fns, f ∉ importedSymbols) <| by
      simp [Unreached, Option.any_eq_true]

/-- The statement about a CVE, with the functions of the mapping. -/
def reachabilityStatementOf (affectedFunctions : OrderedMap String (List String))
    (productPurl statementTimestamp cve : String) : Statement :=
  reachabilityStatement productPurl statementTimestamp cve ((affectedFunctions.get? cve).getD [])

/-- What the loop makes of a match, whatever it has emitted before. -/
def reachabilityOf (importedSymbols : List String) (affectedFunctions : OrderedMap String (List String))
    (alreadyTriaged : List String) (productPurl statementTimestamp : String) (m : GrypeMatch) :
    Option Statement :=
  if m.vulnerability.id ∉ alreadyTriaged ∧
      Unreached importedSymbols affectedFunctions m.vulnerability.id then
    some (reachabilityStatementOf affectedFunctions productPurl statementTimestamp m.vulnerability.id)
  else none

def Aligned (state : OrderedMap String Unit × OrderedMap String Statement) : Prop :=
  ∀ cve, state.1.contains cve = state.2.contains cve

theorem aligned_insert {state : OrderedMap String Unit × OrderedMap String Statement}
    (h : Aligned state) (cve : String) (s : Statement) :
    Aligned (state.1.insert cve (), state.2.insert cve s) := by
  intro cve'
  have hcve' := h cve'
  unfold OrderedMap.contains at hcve' ⊢
  rw [OrderedMap.get?_insert, OrderedMap.get?_insert]
  split
  · rfl
  · exact hcve'

theorem reachabilityStep_spec {state : OrderedMap String Unit × OrderedMap String Statement}
    (h : Aligned state) (m : GrypeMatch) :
    Aligned (reachabilityStep importedSymbols affectedFunctions alreadyTriaged productPurl
        statementTimestamp state m) ∧
      (reachabilityStep importedSymbols affectedFunctions alreadyTriaged productPurl
        statementTimestamp state m).2 =
        state.2.insertNew m.vulnerability.id (reachabilityOf importedSymbols affectedFunctions
          alreadyTriaged productPurl statementTimestamp m) := by
  unfold reachabilityStep reachabilityOf OrderedMap.insertNew
  dsimp only
  rw [← h m.vulnerability.id]
  by_cases htriaged : m.vulnerability.id ∈ alreadyTriaged
  · simp [htriaged, h]
  · by_cases hknown : state.1.contains m.vulnerability.id = true
    · simp [htriaged, hknown, h]
    · cases hfns : affectedFunctions.get? m.vulnerability.id with
      | none => simp [htriaged, hknown, h, Unreached, hfns]
      | some fns =>
        by_cases hempty : fns = []
        · simp [htriaged, hknown, h, Unreached, hfns, hempty]
        · by_cases hnone : ∀ f ∈ fns, f ∉ importedSymbols
          · have hany : fns.any importedSymbols.contains = false := by simpa using hnone
            have hunreached : Unreached importedSymbols affectedFunctions m.vulnerability.id :=
              ⟨fns, hfns, hempty, hnone⟩
            simp [htriaged, hknown, hfns, hempty, hany, hunreached, reachabilityStatementOf,
              aligned_insert h]
          · have hany : fns.any importedSymbols.contains = true := by simpa using hnone
            simp [htriaged, hknown, h, Unreached, hfns, hempty, hany, hnone]

theorem computeReachabilityVex_eq :
    computeReachabilityVex importedSymbols affectedFunctions alreadyTriaged productPurl
        statementTimestamp grype =
      (OrderedMap.collect (fun m => m.vulnerability.id) (reachabilityOf importedSymbols
        affectedFunctions alreadyTriaged productPurl statementTimestamp) grype.found).values := by
  unfold computeReachabilityVex OrderedMap.collect
  suffices general : ∀ (l : List GrypeMatch) (state : OrderedMap String Unit × OrderedMap String Statement),
      Aligned state →
      (l.foldl (reachabilityStep importedSymbols affectedFunctions alreadyTriaged productPurl
        statementTimestamp) state).2 =
        l.foldl (fun emitted m => emitted.insertNew m.vulnerability.id (reachabilityOf importedSymbols
          affectedFunctions alreadyTriaged productPurl statementTimestamp m)) state.2 by
    rw [general _ _ fun _ => rfl]
  intro l
  induction l with
  | nil => exact fun _ _ => rfl
  | cons m l ih =>
    intro state haligned
    rw [List.foldl_cons, List.foldl_cons, ih _ (reachabilityStep_spec haligned m).1,
      (reachabilityStep_spec haligned m).2]

theorem reachabilityOf_eq_some {m : GrypeMatch} {s : Statement}
    (h : reachabilityOf importedSymbols affectedFunctions alreadyTriaged productPurl
      statementTimestamp m = some s) :
    s = reachabilityStatementOf affectedFunctions productPurl statementTimestamp m.vulnerability.id := by
  unfold reachabilityOf at h
  split at h
  · exact (Option.some.inj h).symm
  · cases h

theorem reachabilityOf_isSome_iff {m : GrypeMatch} :
    (reachabilityOf importedSymbols affectedFunctions alreadyTriaged productPurl statementTimestamp
      m).isSome = true ↔
      m.vulnerability.id ∉ alreadyTriaged ∧
        Unreached importedSymbols affectedFunctions m.vulnerability.id := by
  unfold reachabilityOf
  split <;> simp_all

/-- A statement says of the CVE that the product is not affected. -/
def Exonerates (s : Statement) (cve : String) : Prop :=
  s.vulnerability.name = cve ∧ s.status = statusNotAffected

/-- A statement is emitted for each open CVE of the report whose functions are not imported. -/
theorem exonerated_iff {cve : String} :
    (∃ s ∈ computeReachabilityVex importedSymbols affectedFunctions alreadyTriaged productPurl
        statementTimestamp grype, Exonerates s cve) ↔
      cve ∉ alreadyTriaged ∧ (∃ m ∈ grype.found, m.vulnerability.id = cve) ∧
        Unreached importedSymbols affectedFunctions cve := by
  rw [computeReachabilityVex_eq]
  simp only [OrderedMap.mem_values_iff,
    OrderedMap.get?_collect_eq_some_iff fun m _ _ => reachabilityOf_eq_some, reachabilityOf_isSome_iff]
  constructor
  · rintro ⟨_, ⟨cve', rfl, m, hm, rfl, htriaged, hunreached⟩, rfl, -⟩
    exact ⟨htriaged, ⟨m, hm, rfl⟩, hunreached⟩
  · rintro ⟨htriaged, ⟨m, hm, rfl⟩, hunreached⟩
    exact ⟨_, ⟨m.vulnerability.id, rfl, m, hm, rfl, htriaged, hunreached⟩, rfl, rfl⟩

end Emission

section Listings

/-- The types of undefined symbols. -/
inductive NmType where
  | undefined
  | weak
  | weakObject
  deriving DecidableEq

def NmType.letter : NmType → Char
  | .undefined => 'U'
  | .weak => 'w'
  | .weakObject => 'v'

def isBlank (c : Char) : Bool := Text.isWhitespace c && c != '\n'

/-- A line of `nm -D --undefined-only`. -/
structure NmLine where
  indent : List Char
  type : NmType
  gap : List Char
  symbol : List Char
  version : Option (List Char)
  indent_blank : ∀ c ∈ indent, isBlank c = true
  gap_blank : ∀ c ∈ gap, isBlank c = true
  gap_ne : gap ≠ []
  symbol_ne : symbol ≠ []
  symbol_plain : ∀ c ∈ symbol, Text.isWhitespace c = false ∧ c ≠ '@'
  version_plain : ∀ v, version = some v → ∀ c ∈ v, Text.isWhitespace c = false

namespace NmLine

def name (l : NmLine) : List Char := l.symbol ++ l.version.elim [] fun v => '@' :: v

def chars (l : NmLine) : List Char := l.indent ++ l.type.letter :: (l.gap ++ l.name)

variable (l : NmLine)

theorem name_ne : l.name ≠ [] := by
  simp [name, l.symbol_ne]

theorem isWhitespace_of_mem_name {c : Char} (hc : c ∈ l.name) : Text.isWhitespace c = false := by
  rcases List.mem_append.mp hc with hc | hc
  · exact (l.symbol_plain c hc).1
  · cases hversion : l.version with
    | none => simp [hversion] at hc
    | some v =>
      rw [hversion] at hc
      rcases List.mem_cons.mp hc with rfl | hc
      · decide
      · exact l.version_plain v hversion c hc

theorem isWhitespace_letter : Text.isWhitespace l.type.letter = false := by
  cases l.type <;> decide

theorem isWhitespace_of_blank {c : Char} (h : isBlank c = true) : Text.isWhitespace c = true :=
  ((Bool.and_eq_true _ _).mp h).1

theorem newline_notMem_chars : '\n' ∉ l.chars := by
  have hblank : isBlank '\n' = false := by decide
  have hws : Text.isWhitespace '\n' = true := by decide
  intro hmem
  rcases List.mem_append.mp hmem with hmem | hmem
  · simp [l.indent_blank _ hmem] at hblank
  rcases List.mem_cons.mp hmem with heq | hmem
  · rw [heq, l.isWhitespace_letter] at hws
    cases hws
  rcases List.mem_append.mp hmem with hmem | hmem
  · simp [l.gap_blank _ hmem] at hblank
  · rw [l.isWhitespace_of_mem_name hmem] at hws
    cases hws

theorem getLast_chars : ∃ init c, l.chars = init ++ [c] ∧ Text.isWhitespace c = false := by
  obtain ⟨init, c, hname⟩ := List.eq_nil_or_concat l.name |>.resolve_left l.name_ne
  rw [List.concat_eq_append] at hname
  refine ⟨l.indent ++ l.type.letter :: (l.gap ++ init), c, ?_, l.isWhitespace_of_mem_name (by simp [hname])⟩
  simp [chars, hname]

theorem dropWhile_indent {indent rest : List Char} {c : Char}
    (hindent : ∀ c ∈ indent, Text.isWhitespace c = true) (hc : Text.isWhitespace c = false) :
    (indent ++ c :: rest).dropWhile Text.isWhitespace = c :: rest := by
  induction indent with
  | nil => simp [hc]
  | cons b indent ih =>
    obtain ⟨hb, hrest⟩ := List.forall_mem_cons.mp hindent
    rw [List.cons_append, List.dropWhile_cons, if_pos hb, ih hrest]

theorem trim_chars :
    Text.trim (.ofList l.chars) = .ofList (l.type.letter :: (l.gap ++ l.name)) := by
  obtain ⟨init, c, hname⟩ := List.eq_nil_or_concat l.name |>.resolve_left l.name_ne
  rw [List.concat_eq_append] at hname
  have hc : Text.isWhitespace c = false := l.isWhitespace_of_mem_name (by simp [hname])
  have hreverse : (l.type.letter :: (l.gap ++ l.name)).reverse =
      c :: (l.type.letter :: (l.gap ++ init)).reverse := by simp [hname]
  unfold Text.trim
  rw [String.toList_ofList, chars, dropWhile_indent
    (fun c hc => isWhitespace_of_blank (l.indent_blank c hc)) l.isWhitespace_letter, hreverse,
    List.dropWhile_cons, if_neg (by simp [hc]), ← hreverse, List.reverse_reverse]

theorem splitWhitespace_chars :
    Text.splitWhitespace (.ofList (l.type.letter :: (l.gap ++ l.name))) =
      [.ofList [l.type.letter], .ofList l.name] := by
  obtain ⟨b, gap, hgap⟩ := List.exists_cons_of_ne_nil l.gap_ne
  have hblank : ∀ c ∈ b :: gap, Text.isWhitespace c = true := fun c hc =>
    isWhitespace_of_blank (l.gap_blank c (hgap ▸ hc))
  obtain ⟨hb, hrest⟩ := List.forall_mem_cons.mp hblank
  have hletter : ∀ c ∈ [l.type.letter], Text.isWhitespace c = false := by
    simp [l.isWhitespace_letter]
  have hname : ((Text.splitWhen Text.isWhitespace l.name).filter fun word => !word.isEmpty) =
      [l.name] := by
    rw [Text.splitWhen_of_all fun c hc => l.isWhitespace_of_mem_name hc]
    simp [l.name_ne]
  have hsplit : Text.splitWhen Text.isWhitespace (l.type.letter :: (l.gap ++ l.name)) =
      [l.type.letter] :: Text.splitWhen Text.isWhitespace (gap ++ l.name) := by
    rw [hgap]
    exact Text.splitWhen_append hletter hb (gap ++ l.name)
  unfold Text.splitWhitespace
  rw [String.toList_ofList, hsplit, List.filter_cons_of_pos (by simp),
    Text.filter_splitWhen_blanks hrest, hname]
  rfl

theorem bare_name :
    ((Text.splitOnce '@' (.ofList l.name)).map Prod.fst).getD (.ofList l.name) = .ofList l.symbol := by
  have hsymbol : '@' ∉ l.symbol := fun hmem => (l.symbol_plain _ hmem).2 rfl
  unfold Text.splitOnce
  rw [String.toList_ofList]
  cases hversion : l.version with
  | none =>
    have hname : l.name = l.symbol := by simp [name, hversion]
    rw [hname, Text.splitOnceChars_eq_none_iff.mpr hsymbol]
    rfl
  | some v =>
    have hname : l.name = l.symbol ++ '@' :: v := by simp [name, hversion]
    rw [hname, Text.splitOnceChars_append hsymbol]
    rfl

theorem parseNmLine_chars : parseNmLine (.ofList l.chars) =
    if l.type = .undefined then some (.ofList l.symbol) else none := by
  have hempty : (String.ofList (l.type.letter :: (l.gap ++ l.name))).isEmpty = false := by
    simp
  have hhead : Text.startsWith "#" (.ofList (l.type.letter :: (l.gap ++ l.name))) = false := by
    rw [Text.startsWith, String.toList_ofList (l := l.type.letter :: _)]
    cases l.type <;> rfl
  have htokens : [String.ofList [l.type.letter], .ofList l.name].findIdx? isTypeColumn = some 0 := by
    have hfirst : isTypeColumn (.ofList [l.type.letter]) = true := by
      cases l.type <;> decide
    rw [List.findIdx?_cons, if_pos hfirst]
  have hu : String.ofList [l.type.letter] = "U" ↔ l.type = .undefined := by
    cases l.type <;> decide
  unfold parseNmLine
  rw [l.trim_chars]
  dsimp only
  rw [hempty, hhead, if_neg (by decide), l.splitWhitespace_chars, htokens]
  dsimp only
  rw [List.getElem?_cons_zero]
  by_cases htype : l.type = .undefined
  · have hsymbol : (String.ofList l.symbol).isEmpty = false := by
      simp [l.symbol_ne]
    rw [if_pos htype, hu.mpr htype, if_neg (by decide), List.getElem?_cons_succ,
      List.getElem?_cons_zero]
    dsimp only
    rw [l.bare_name, hsymbol]
    rfl
  · have hne : (some (String.ofList [l.type.letter]) != some "U") = true := by
      rw [bne_iff_ne]
      exact fun heq => htype (hu.mp (Option.some.inj heq))
    rw [if_neg htype, if_pos hne]

end NmLine

/-- Lines with their line feeds, and one that may be left without. -/
def listing (ls : List NmLine) (last : Option NmLine) : String :=
  .ofList ((ls.map NmLine.chars).flatMap (fun cs => cs ++ ['\n']) ++ last.elim [] NmLine.chars)

variable {ls : List NmLine} {last : Option NmLine}

theorem NmLine.chars_ne (l : NmLine) : l.chars ≠ [] := by
  simp [NmLine.chars]

theorem NmLine.getLast_ne (l : NmLine) : l.chars.getLast? ≠ some '\r' := by
  obtain ⟨init, c, hchars, hc⟩ := l.getLast_chars
  rw [hchars, List.getLast?_concat]
  intro heq
  rw [Option.some.inj heq] at hc
  exact absurd hc (by decide)

theorem lines_listing : Text.lines (listing ls last) =
    (ls ++ last.toList).map fun l => .ofList l.chars := by
  have hnewline : ∀ cs ∈ ls.map NmLine.chars, '\n' ∉ cs := by
    intro cs hcs
    obtain ⟨l, -, rfl⟩ := List.mem_map.mp hcs
    exact l.newline_notMem_chars
  have hrest : Text.splitChars '\n' (last.elim [] NmLine.chars) = [last.elim [] NmLine.chars] := by
    refine Text.splitChars_of_notMem ?_
    cases last with
    | none => simp
    | some l => exact l.newline_notMem_chars
  have hended : ((ls.map NmLine.chars).map fun cs =>
      if cs.getLast? = some '\r' then cs.dropLast else cs) = ls.map NmLine.chars := by
    rw [List.map_map]
    exact List.map_congr_left fun l _ => if_neg l.getLast_ne
  unfold Text.lines listing
  rw [String.toList_ofList, Text.splitChars_flatMap hnewline, hrest]
  simp only [List.dropLast_concat, List.getLast?_concat]
  rw [hended]
  cases last with
  | none => simp [Function.comp_def]
  | some l => simp [Function.comp_def, l.chars_ne, -String.ofList_eq_empty_iff]

theorem mem_parseNmOutput_listing {f : String} :
    f ∈ parseNmOutput (listing ls last) ↔
      ∃ l ∈ ls ++ last.toList, l.type = .undefined ∧ String.ofList l.symbol = f := by
  rw [parseNmOutput, lines_listing, List.filterMap_map, List.mem_filterMap]
  refine exists_congr fun l => and_congr_right fun _ => ?_
  rw [Function.comp_apply, l.parseNmLine_chars]
  by_cases htype : l.type = .undefined <;> simp [htype]

/-- A line of the listing names the function. -/
def Imported (ls : List NmLine) (f : String) : Prop := ∃ l ∈ ls, String.ofList l.symbol = f

def ImportedStrongly (ls : List NmLine) (f : String) : Prop :=
  ∃ l ∈ ls, l.type = .undefined ∧ String.ofList l.symbol = f

def ImportedWeakly (ls : List NmLine) (f : String) : Prop :=
  ∃ l ∈ ls, l.type ≠ .undefined ∧ String.ofList l.symbol = f

theorem imported_iff {ls : List NmLine} {f : String} :
    Imported ls f ↔ ImportedStrongly ls f ∨ ImportedWeakly ls f := by
  constructor
  · rintro ⟨l, hl, rfl⟩
    by_cases htype : l.type = .undefined
    · exact .inl ⟨l, hl, htype, rfl⟩
    · exact .inr ⟨l, hl, htype, rfl⟩
  · rintro (⟨l, hl, -, rfl⟩ | ⟨l, hl, -, rfl⟩)
    · exact ⟨l, hl, rfl⟩
    · exact ⟨l, hl, rfl⟩

end Listings

/-- Reading a listing and judging a report by it clears no CVE with an imported function, and clears
every open CVE of the report with functions none of which is imported, exactly when every open CVE with a
weakly imported function has a strongly imported one too: weak imports are not read. -/
theorem reachability_vex_sound_iff (ls : List NmLine) (last : Option NmLine)
    (affectedFunctions : OrderedMap String (List String)) (alreadyTriaged : List String)
    (productPurl statementTimestamp : String) (grype : GrypeReport) :
    ((∀ cve, (∃ s ∈ computeReachabilityVex (parseNmOutput (listing ls last)) affectedFunctions
          alreadyTriaged productPurl statementTimestamp grype, Exonerates s cve) →
        ∀ fns, affectedFunctions.get? cve = some fns → ∀ f ∈ fns, ¬ Imported (ls ++ last.toList) f) ∧
      ∀ m ∈ grype.found, m.vulnerability.id ∉ alreadyTriaged →
        ∀ fns, affectedFunctions.get? m.vulnerability.id = some fns → fns ≠ [] →
        (∀ f ∈ fns, ¬ Imported (ls ++ last.toList) f) →
        ∃ s ∈ computeReachabilityVex (parseNmOutput (listing ls last)) affectedFunctions
          alreadyTriaged productPurl statementTimestamp grype, Exonerates s m.vulnerability.id) ↔
    ∀ m ∈ grype.found, m.vulnerability.id ∉ alreadyTriaged →
      ∀ fns, affectedFunctions.get? m.vulnerability.id = some fns →
        (∃ f ∈ fns, ImportedWeakly (ls ++ last.toList) f) →
        ∃ f ∈ fns, ImportedStrongly (ls ++ last.toList) f := by
  have hread : ∀ f, f ∈ parseNmOutput (listing ls last) ↔ ImportedStrongly (ls ++ last.toList) f :=
    fun f => mem_parseNmOutput_listing
  simp only [exonerated_iff, Unreached, hread]
  constructor
  · rintro ⟨hsound, -⟩ m hm htriaged fns hfns ⟨f, hf, hweak⟩
    by_contra hnone
    refine hsound m.vulnerability.id ⟨htriaged, ⟨m, hm, rfl⟩, fns, hfns, List.ne_nil_of_mem hf, ?_⟩ fns
      hfns f hf (imported_iff.mpr (.inr hweak))
    exact fun g hg hstrong => hnone ⟨g, hg, hstrong⟩
  · intro hweak
    refine ⟨?_, fun m hm htriaged fns hfns hne hnone => ?_⟩
    · rintro cve ⟨htriaged, ⟨m, hm, rfl⟩, fns', hfns', -, hnone⟩ fns hfns f hf himported
      obtain rfl : fns' = fns := Option.some.inj (hfns'.symm.trans hfns)
      rcases imported_iff.mp himported with hstrong | hw
      · exact hnone f hf hstrong
      · obtain ⟨g, hg, hstrong⟩ := hweak m hm htriaged _ hfns ⟨f, hf, hw⟩
        exact hnone g hg hstrong
    · exact ⟨htriaged, ⟨m, hm, rfl⟩, fns, hfns, hne,
        fun f hf hstrong => hnone f hf (imported_iff.mpr (.inl hstrong))⟩

section Sample

def weakScanf : NmLine where
  indent := List.replicate 17 ' '
  type := .weak
  gap := [' ']
  symbol := "scanf".toList
  version := some "GLIBC_2.7".toList
  indent_blank := List.all_eq_true.mp (by decide)
  gap_blank := List.all_eq_true.mp (by decide)
  gap_ne := by simp
  symbol_ne := by simp
  symbol_plain c hc := by
    have hplain : "scanf".toList.all (fun c => !Text.isWhitespace c && c != '@') = true := by decide
    simpa using List.all_eq_true.mp hplain c hc
  version_plain v hv c hc := by
    cases hv
    have hplain : "GLIBC_2.7".toList.all (fun c => !Text.isWhitespace c) = true := by decide
    simpa using List.all_eq_true.mp hplain c hc

/-- A weakly imported function does not keep its CVE open. -/
theorem weak_import_exonerated :
    listing [weakScanf] none = "                 w scanf@GLIBC_2.7\n" ∧
      (computeReachabilityVex (parseNmOutput (listing [weakScanf] none))
          (OrderedMap.empty.insert "CVE-2024-0001" ["scanf"]) [] "pkg:oci/5spot" "2026-01-01T00:00:00Z"
          ⟨[⟨⟨"CVE-2024-0001"⟩, ⟨none⟩⟩]⟩).map (fun s => (s.vulnerability.name, s.status)) =
        [("CVE-2024-0001", "not_affected")] := by
  decide +kernel

end Sample

end FiveSpot.Vex
