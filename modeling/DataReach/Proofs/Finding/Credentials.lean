import DataReach.Proofs.Finding.DataImpact
import DataReach.Proofs.Impact.DataPaths
/-!
Credentials within reach make a finding urgent. That an access touches them is not lost on the way
from the search over the merged fields to the data impact, and from there on it decides the tier
whatever the scores come to.
-/

namespace DataReach

/-- A field that an access lists holds credentials, or, where it lists none, the table does. -/
def DataAccess.TouchesCredentials (c : Classifier) (a : DataAccess) : Prop :=
  (∃ field ∈ a.fields, c.classifyField a.table field = .credentials) ∨
    a.fields = [] ∧ c.classify a.table = .credentials

theorem DataAccess.touchesCredentials_iff {c : Classifier} {a : DataAccess} :
    a.TouchesCredentials c ↔ ∃ field ∈ a.names, c.classifyField a.table field = .credentials := by
  rw [TouchesCredentials, names]
  cases none : a.fields with
  | nil => simp [c.classifyField_wholeTable]
  | cons field rest => simp

/-! ### The tier -/

theorem Tier.ofScore_credentials (overall : Float) (exposure : Exposure) :
    Tier.ofScore overall exposure true = .p0 ∨ Tier.ofScore overall exposure true = .p1 := by
  unfold Tier.ofScore
  split
  · exact .inl rfl
  · rw [Bool.or_true, if_pos rfl]
    exact .inr rfl

namespace Priority

variable {d : DataImpact}

theorem ofFinding_credentials (severity : Severity) (category : Category) (b : BlastRadius)
    (cvss : Option Float) (exposed : d.hasCredentials = true) :
    let p := ofFinding severity category d b cvss
    (p.tier = .p0 ∨ p.tier = .p1) ∧
      ∃ factor ∈ p.increasing, factor.name = "credential_exposure" := by
  intro p
  constructor
  · have tier : p.tier = .ofScore p.overall b.exposure true := by rw [← exposed]; rfl
    rw [tier]
    exact Tier.ofScore_credentials p.overall b.exposure
  · refine ⟨⟨"credential_exposure", "reaches credential fields"⟩, ?_, rfl⟩
    have named : p.increasing = increasingFactors severity d b := rfl
    simp [named, increasingFactors, factorIf, exposed]

end Priority

/-! ### From the accesses to the data impact -/

section Located

variable {g : CallGraph} {c : Classifier} {regulations : RegulationMap} {maxDepth : Option Nat}
  {finding : Finding} {f : FunctionNode}

theorem accesses_iff_reaches (present : g.function? f.id = some f) {a : DataAccess} :
    (∃ n, g.Accesses f maxDepth n a) ↔
      ∃ h, Impact.Reaches g maxDepth [f] h ∧ a ∈ h.dataAccess := by
  have held : ∀ k ∈ [f], g.function? k.id = some k := by simpa using present
  have covers := (Forward.covers_visits present maxDepth).1
  simp only [Impact.reaches_iff_visited held, List.mem_singleton, exists_eq_left]
  constructor
  · rintro ⟨n, h, distance, within, member⟩
    obtain ⟨v, visited, rfl, -⟩ := (covers_mem_iff covers n h).mpr
      ⟨distance, Nat.zero_le n, within⟩
    exact ⟨v.node, ⟨v, visited, rfl⟩, member⟩
  · rintro ⟨h, ⟨v, visited, rfl⟩, member⟩
    obtain ⟨-, within, distance⟩ := covers.sound v visited
    exact ⟨v.depth, v.node, distance, within, member⟩

theorem hasCredentials_iff (located : innermost (g.inFile finding.file) finding.line = some f) :
    ((EnrichedFinding.ofFinding c regulations maxDepth finding).eval
        g.answers).dataImpact.hasCredentials = true ↔
      ∃ n a, g.Accesses f maxDepth n a ∧ a.TouchesCredentials c := by
  have present := function?_of_located located
  rw [DataImpact.hasCredentials, dataImpact_fields located]
  simp only [List.any_map, List.any_eq_true, Function.comp_apply, beq_iff_eq,
    DataImpact.fieldImpact]
  constructor
  · rintro ⟨r, listed, credentials⟩
    obtain ⟨⟨n, a, reached, table, named⟩, cls, -⟩ :=
      (mem_sensitiveFields present).mp ⟨r, listed, rfl⟩
    refine ⟨n, a, reached, DataAccess.touchesCredentials_iff.mpr ⟨r.field.field, named, ?_⟩⟩
    rw [table, ← cls, credentials]
  · rintro ⟨n, a, reached, touched⟩
    obtain ⟨field, named, credentials⟩ := DataAccess.touchesCredentials_iff.mp touched
    obtain ⟨r, listed, same⟩ :=
      (mem_sensitiveFields (s := ⟨a.table, field, .credentials⟩) present).mpr
        ⟨⟨n, a, reached, rfl, named⟩, credentials.symm, rfl⟩
    exact ⟨r, listed, by rw [same]⟩

end Located

/-- A finding exposes credentials exactly when calls lead to an access that touches them; it is then
in one of the two highest tiers, and credentials are among the reasons given. -/
theorem credentials_escalate (g : CallGraph) (c : Classifier) (regulations : RegulationMap)
    (maxDepth : Option Nat) (finding : Finding) {f : FunctionNode}
    (located : innermost (g.inFile finding.file) finding.line = some f) :
    let e := (EnrichedFinding.ofFinding c regulations maxDepth finding).eval g.answers
    (e.dataImpact.hasCredentials = true ↔ ∃ h, Impact.Reaches g maxDepth [f] h ∧
      ∃ a ∈ h.dataAccess, a.TouchesCredentials c) ∧
    (e.dataImpact.hasCredentials = true →
      (e.priority.tier = .p0 ∨ e.priority.tier = .p1) ∧
        ∃ factor ∈ e.priority.increasing, factor.name = "credential_exposure") := by
  intro e
  constructor
  · rw [hasCredentials_iff located]
    have reaches := @accesses_iff_reaches g maxDepth f (function?_of_located located)
    constructor
    · rintro ⟨n, a, reached, touched⟩
      obtain ⟨h, within, member⟩ := reaches.mp ⟨n, reached⟩
      exact ⟨h, within, a, member, touched⟩
    · rintro ⟨h, within, a, member, touched⟩
      obtain ⟨n, reached⟩ := reaches.mpr ⟨h, within, member⟩
      exact ⟨n, a, reached, touched⟩
  · intro exposed
    have priority : e.priority = .ofFinding finding.severity finding.category e.dataImpact
        e.blastRadius finding.cvss := by
      simp only [e, eval_ofFinding located]
      rfl
    rw [priority]
    exact Priority.ofFinding_credentials _ _ _ _ exposed

def loginFinding : Finding where
  id := "F1"
  file := "a.py"
  line := 5
  severity := .info
  category := .logging

theorem credentials_escalate_login :
    let e := (EnrichedFinding.ofFinding .standard .standard (some 0) loginFinding).eval
      Impact.loginGraph.answers
    e.dataImpact.hasCredentials = true ∧ (e.priority.tier = .p0 ∨ e.priority.tier = .p1) := by
  intro e
  obtain ⟨exposed_iff, urgent⟩ := credentials_escalate Impact.loginGraph .standard .standard
    (some 0) loginFinding (f := Impact.login) rfl
  have reached : Impact.Reaches Impact.loginGraph (some 0) [Impact.login] Impact.login :=
    ⟨Impact.login, List.mem_singleton.mpr rfl, 0, .here rfl, .inl (Nat.zero_le _)⟩
  have password : Classifier.standard.classifyField "users" "password" = .credentials := by
    decide +kernel
  have exposed := exposed_iff.mpr ⟨Impact.login, reached, Impact.passwordRead, by decide,
    .inl ⟨"password", by decide, password⟩⟩
  exact ⟨exposed, (urgent exposed).1⟩

end DataReach
