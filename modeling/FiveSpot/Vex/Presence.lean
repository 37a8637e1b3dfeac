import Mathlib.Data.String.Basic
import FiveSpot.Data.OrderedMap

/-!
# Statements about absent components

`auto_vex_presence.rs`: for the findings of a scan, the statements that say of a CVE that its component
is not in the product, judged by the package URLs of the SBOMs.
-/

namespace FiveSpot.Vex

set_option autoImplicit false

structure GrypeVuln where
  id : String
  deriving DecidableEq

structure GrypeArtifact where
  purl : Option String
  deriving DecidableEq

structure GrypeMatch where
  vulnerability : GrypeVuln
  artifact : GrypeArtifact
  deriving DecidableEq

/-- The field `matches` of the source. -/
structure GrypeReport where
  found : List GrypeMatch

structure SbomComponent where
  purl : Option String

structure Sbom where
  components : Option (List SbomComponent)

structure Vuln where
  name : String
  deriving DecidableEq

structure Product where
  id : String
  deriving DecidableEq

structure Statement where
  vulnerability : Vuln
  products : List Product
  status : String
  justification : Option String
  impactStatement : Option String
  timestamp : String
  deriving DecidableEq

def statusNotAffected : String := "not_affected"

def componentNotPresent : String := "component_not_present"

def autoImpactStatement : String :=
  "Auto-derived by auto-vex-presence: the vulnerable component's package " ++
    "URL is not present in any release SBOM, so the CVE cannot be exploited " ++
    "against this product."

def presenceStatement (productPurl statementTimestamp cve : String) : Statement where
  vulnerability := ⟨cve⟩
  products := [⟨productPurl⟩]
  status := statusNotAffected
  justification := some componentNotPresent
  impactStatement := some autoImpactStatement
  timestamp := statementTimestamp

def sbomPurls (sboms : List Sbom) : List String :=
  (sboms.flatMap fun s => s.components.getD []).filterMap SbomComponent.purl

section Computing

variable (sboms : List Sbom) (alreadyTriaged : List String) (productPurl statementTimestamp : String)

def presenceStep (emitted : OrderedMap String Statement) (m : GrypeMatch) :
    OrderedMap String Statement :=
  let cve := m.vulnerability.id
  if alreadyTriaged.contains cve then emitted
  else if emitted.contains cve then emitted
  else
    match m.artifact.purl with
    | none => emitted
    | some purl =>
        if purl.isEmpty then emitted
        else if (sbomPurls sboms).contains purl then emitted
        else emitted.insert cve (presenceStatement productPurl statementTimestamp cve)

def computePresenceVex (grype : GrypeReport) : List Statement :=
  (grype.found.foldl (presenceStep sboms alreadyTriaged productPurl statementTimestamp) .empty).values

end Computing

/-- A match of a package that is in no SBOM; a match without a package URL says nothing. -/
def GrypeMatch.Absent (sboms : List Sbom) (m : GrypeMatch) : Prop :=
  ∃ purl, m.artifact.purl = some purl ∧ purl ≠ "" ∧ purl ∉ sbomPurls sboms

def GrypeMatch.Present (sboms : List Sbom) (m : GrypeMatch) : Prop :=
  ∃ purl ∈ sbomPurls sboms, m.artifact.purl = some purl

instance (sboms : List Sbom) (m : GrypeMatch) : Decidable (m.Absent sboms) :=
  decidable_of_iff (m.artifact.purl.any fun purl => purl ≠ "" ∧ purl ∉ sbomPurls sboms) <| by
    simp [GrypeMatch.Absent, Option.any_eq_true]

section Emission

variable {sboms : List Sbom} {alreadyTriaged : List String} {productPurl statementTimestamp : String}
  {grype : GrypeReport}

/-- What the loop makes of a match, whatever it has emitted before. -/
def presenceOf (sboms : List Sbom) (alreadyTriaged : List String)
    (productPurl statementTimestamp : String) (m : GrypeMatch) : Option Statement :=
  if m.vulnerability.id ∉ alreadyTriaged ∧ m.Absent sboms then
    some (presenceStatement productPurl statementTimestamp m.vulnerability.id)
  else none

theorem presenceStep_eq (emitted : OrderedMap String Statement) (m : GrypeMatch) :
    presenceStep sboms alreadyTriaged productPurl statementTimestamp emitted m =
      emitted.insertNew m.vulnerability.id
        (presenceOf sboms alreadyTriaged productPurl statementTimestamp m) := by
  obtain ⟨⟨cve⟩, ⟨purl⟩⟩ := m
  unfold presenceStep OrderedMap.insertNew presenceOf
  dsimp only
  by_cases htriaged : cve ∈ alreadyTriaged
  · simp [htriaged]
  · cases purl with
    | none => simp [htriaged, GrypeMatch.Absent]
    | some purl =>
      by_cases hempty : purl = ""
      · simp [htriaged, hempty, GrypeMatch.Absent]
      · by_cases hpresent : purl ∈ sbomPurls sboms <;>
          simp [htriaged, hempty, hpresent, GrypeMatch.Absent]

theorem computePresenceVex_eq :
    computePresenceVex sboms alreadyTriaged productPurl statementTimestamp grype =
      (OrderedMap.collect (fun m => m.vulnerability.id)
        (presenceOf sboms alreadyTriaged productPurl statementTimestamp) grype.found).values := by
  unfold computePresenceVex OrderedMap.collect
  congr 2
  funext emitted m
  exact presenceStep_eq emitted m

theorem presenceOf_eq_some {m : GrypeMatch} {s : Statement}
    (h : presenceOf sboms alreadyTriaged productPurl statementTimestamp m = some s) :
    s = presenceStatement productPurl statementTimestamp m.vulnerability.id := by
  unfold presenceOf at h
  split at h
  · exact (Option.some.inj h).symm
  · cases h

theorem presenceOf_isSome_iff {m : GrypeMatch} :
    (presenceOf sboms alreadyTriaged productPurl statementTimestamp m).isSome = true ↔
      m.vulnerability.id ∉ alreadyTriaged ∧ m.Absent sboms := by
  unfold presenceOf
  split <;> simp_all

theorem mem_computePresenceVex_iff {s : Statement} :
    s ∈ computePresenceVex sboms alreadyTriaged productPurl statementTimestamp grype ↔
      s = presenceStatement productPurl statementTimestamp s.vulnerability.name ∧
        s.vulnerability.name ∉ alreadyTriaged ∧
        ∃ m ∈ grype.found, m.vulnerability.id = s.vulnerability.name ∧ m.Absent sboms := by
  rw [computePresenceVex_eq, OrderedMap.mem_values_iff]
  simp only [OrderedMap.get?_collect_eq_some_iff fun m _ _ => presenceOf_eq_some, presenceOf_isSome_iff]
  constructor
  · rintro ⟨cve, rfl, m, hm, rfl, htriaged, habsent⟩
    exact ⟨rfl, htriaged, m, hm, rfl, habsent⟩
  · rintro ⟨hs, htriaged, m, hm, hid, habsent⟩
    exact ⟨_, hs, m, hm, hid, by rwa [hid], habsent⟩

theorem emitted_iff {cve : String} :
    (∃ s ∈ computePresenceVex sboms alreadyTriaged productPurl statementTimestamp grype,
      s.vulnerability.name = cve ∧ s.status = statusNotAffected ∧
        s.justification = some componentNotPresent) ↔
      cve ∉ alreadyTriaged ∧ ∃ m ∈ grype.found, m.vulnerability.id = cve ∧ m.Absent sboms := by
  constructor
  · rintro ⟨s, hs, rfl, -, -⟩
    exact (mem_computePresenceVex_iff.mp hs).2
  · intro h
    exact ⟨presenceStatement productPurl statementTimestamp cve,
      mem_computePresenceVex_iff.mpr ⟨rfl, h⟩, rfl, rfl, rfl⟩

end Emission

section Soundness

variable (sboms : List Sbom) (alreadyTriaged : List String) (productPurl statementTimestamp : String)
  (grype : GrypeReport)

theorem computePresenceVex_sorted :
    ((computePresenceVex sboms alreadyTriaged productPurl statementTimestamp grype).map
      fun s => s.vulnerability.name).Pairwise (· < ·) := by
  rw [computePresenceVex_eq]
  refine OrderedMap.pairwise_values fun cve s hs => ?_
  rw [OrderedMap.get?_collect_eq_some_iff fun m _ _ => presenceOf_eq_some] at hs
  rw [hs.1]
  rfl

theorem computePresenceVex_congr {grype' : GrypeReport}
    (hmem : ∀ m, m ∈ grype'.found ↔ m ∈ grype.found) :
    computePresenceVex sboms alreadyTriaged productPurl statementTimestamp grype' =
      computePresenceVex sboms alreadyTriaged productPurl statementTimestamp grype := by
  rw [computePresenceVex_eq, computePresenceVex_eq,
    OrderedMap.collect_congr (fun _ _ => presenceOf_eq_some) hmem]

/-- The CVE is open, one of its packages is identified and none is in an SBOM. -/
structure NotPresent (cve : String) : Prop where
  untriaged : cve ∉ alreadyTriaged
  identified : ∃ m ∈ grype.found, m.vulnerability.id = cve ∧ ∃ purl, m.artifact.purl = some purl ∧ purl ≠ ""
  absent : ∀ m ∈ grype.found, m.vulnerability.id = cve → ¬ m.Present sboms

/-- One match of the CVE is of an absent package and one of a package that is in an SBOM. -/
def Mixed (cve : String) : Prop :=
  (∃ m ∈ grype.found, m.vulnerability.id = cve ∧ m.Absent sboms) ∧
    ∃ m ∈ grype.found, m.vulnerability.id = cve ∧ m.Present sboms

theorem absent_of_not_present {m : GrypeMatch} {purl : String} (hpurl : m.artifact.purl = some purl)
    (hne : purl ≠ "") (h : ¬ m.Present sboms) : m.Absent sboms :=
  ⟨purl, hpurl, hne, fun hmem => h ⟨purl, hmem, hpurl⟩⟩

/-- Presence statements are emitted exactly for the CVEs that are not present, in order, once and
whatever the order of the matches, exactly when no open CVE has matches of both kinds: one absent package
is enough for the loop. -/
theorem presence_vex_exact_iff :
    ((∀ cve, (∃ s ∈ computePresenceVex sboms alreadyTriaged productPurl statementTimestamp grype,
          s.vulnerability.name = cve ∧ s.status = statusNotAffected ∧
            s.justification = some componentNotPresent) ↔ NotPresent sboms alreadyTriaged grype cve) ∧
      ((computePresenceVex sboms alreadyTriaged productPurl statementTimestamp grype).map
        fun s => s.vulnerability.name).Pairwise (· < ·) ∧
      ∀ grype' : GrypeReport, (∀ m, m ∈ grype'.found ↔ m ∈ grype.found) →
        computePresenceVex sboms alreadyTriaged productPurl statementTimestamp grype' =
          computePresenceVex sboms alreadyTriaged productPurl statementTimestamp grype) ↔
    ∀ cve, cve ∉ alreadyTriaged → ¬ Mixed sboms grype cve := by
  constructor
  · rintro ⟨hexact, -, -⟩ cve htriaged ⟨habsent, m, hm, hid, hpresent⟩
    have hnot := (hexact cve).mp (emitted_iff.mpr ⟨htriaged, habsent⟩)
    exact hnot.absent m hm hid hpresent
  · intro hmixed
    refine ⟨fun cve => ?_, computePresenceVex_sorted _ _ _ _ _,
      fun grype' => computePresenceVex_congr _ _ _ _ _⟩
    rw [emitted_iff]
    constructor
    · rintro ⟨htriaged, m, hm, hid, purl, hpurl, hne, hnot⟩
      refine ⟨htriaged, ⟨m, hm, hid, purl, hpurl, hne⟩, fun m' hm' hid' hpresent => ?_⟩
      exact hmixed cve htriaged ⟨⟨m, hm, hid, purl, hpurl, hne, hnot⟩, m', hm', hid', hpresent⟩
    · rintro ⟨htriaged, ⟨m, hm, hid, purl, hpurl, hne⟩, hall⟩
      exact ⟨htriaged, m, hm, hid, absent_of_not_present sboms hpurl hne (hall m hm hid)⟩

end Soundness

/-- Two packages with the same CVE, one of them in the SBOM: the CVE is said not to be present. -/
theorem present_component_declared_absent :
    let grype : GrypeReport := ⟨[⟨⟨"CVE-2024-0001"⟩, ⟨some "pkg:deb/libc6"⟩⟩,
      ⟨⟨"CVE-2024-0001"⟩, ⟨some "pkg:deb/libc-bin"⟩⟩]⟩
    let sboms : List Sbom := [⟨some [⟨some "pkg:deb/libc6"⟩]⟩]
    (computePresenceVex sboms [] "pkg:oci/5spot" "2026-01-01T00:00:00Z" grype).map
        (fun s => (s.vulnerability.name, s.justification)) =
      [("CVE-2024-0001", some "component_not_present")] ∧ "pkg:deb/libc6" ∈ sbomPurls sboms := by
  decide +kernel

end FiveSpot.Vex
