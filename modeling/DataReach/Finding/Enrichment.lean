import DataReach.Finding.Priority
import DataReach.Impact
/-! Findings put into the context of the call graph, and ordered by priority. -/

namespace DataReach

structure EnrichedFinding where
  finding : Finding
  /-- The innermost function around the finding. -/
  functionId : Option String
  dataImpact : DataImpact
  blastRadius : BlastRadius
  changeRisk : RiskLevel
  priority : Priority
  graphMissing : Option GraphError := none
  deriving Inhabited

def DataAccess.touches (a : DataAccess) (f : SensitiveField) : Bool :=
  a.table == f.table &&
    (if f.field == wholeTable then a.fields.isEmpty else a.fields.contains f.field)

namespace DataImpact

/-- The least of some depths. None counts as 0, and so does the greatest depth there is. -/
def leastDepth (depths : List Nat) : Nat := (depths.min?.filter (· != depthLimit)).getD 0

def fieldImpact (accesses : List ReachedAccess) (f : SensitiveField) : FieldImpact :=
  let touching := accesses.filter (·.access.touches f)
  ⟨f.table, f.field, f.sensitivity,
    Operation.all.filter fun o => touching.any (·.access.operation == o),
    leastDepth (touching.map (·.depth))⟩

def ofReach (regulations : RegulationMap) (r : Reach) : DataImpact :=
  let fields := r.sensitiveFields.map fun f => fieldImpact r.accesses f.field
  { fields
    tables := r.tables
    functionsReached := r.functionsTraversed
    maxDepth := r.maxDepthReached
    regulations := regulations.forAll (fields.map (·.sensitivity)) }

end DataImpact

namespace BlastRadius

def handful : UInt32 := 5

def avgDepth (affected : List AffectedFunction) : Float :=
  if affected.isEmpty then 0.0
  else (affected.map (·.depth.toFloat)).foldl (· + ·) 0.0 / affected.length.toFloat

def ofImpact (finding : Finding) (linesOfCode : UInt32) (i : Impact) : BlastRadius :=
  let affectedFunctions : UInt32 := .ofNat i.affected.length
  let entryPoints : UInt32 := .ofNat i.entryPoints.length
  { exposure := finding.exposure.getD
      (if 0 < entryPoints then .authenticatedPublic else .unexposed)
    affectedFunctions, entryPoints, linesOfCode
    avgCallDepth := avgDepth i.affected
    contained := entryPoints == 0 && affectedFunctions ≤ handful }

end BlastRadius

namespace EnrichedFinding

def assemble (finding : Finding) (functionId : Option String) (d : DataImpact) (b : BlastRadius)
    (risk : RiskLevel) : EnrichedFinding where
  finding := finding
  functionId := functionId
  dataImpact := d
  blastRadius := b
  changeRisk := risk
  priority := Priority.ofFinding finding.severity finding.category d b finding.cvss

def alone (finding : Finding) : EnrichedFinding :=
  assemble finding none {} { exposure := finding.exposure.getD .unexposed } .low

def ofFinding (c : Classifier) (regulations : RegulationMap) (maxDepth : Option Nat)
    (finding : Finding) : Inquiry EnrichedFinding := do
  match ← Inquiry.missing? with
  | some e => return { alone finding with graphMissing := some e }
  | none =>
    match innermost (← Inquiry.inFile finding.file) finding.line with
    | none => return alone finding
    | some f =>
      let reach ← Reach.forward c { maxDepth } f.id
      let impact ← Impact.ofFunction c maxDepth f.id
      return assemble finding (some f.id) (.ofReach regulations reach)
        (.ofImpact finding (f.span + 1) impact) impact.risk

def ofEach (c : Classifier) (regulations : RegulationMap) (maxDepth : Option Nat) :
    List Finding → Inquiry (List EnrichedFinding)
  | [] => return []
  | f :: rest => do
    let e ← ofFinding c regulations maxDepth f
    return e :: (← ofEach c regulations maxDepth rest)

def before (a b : EnrichedFinding) : Bool :=
  if b.priority.overall < a.priority.overall then true
  else if a.priority.overall < b.priority.overall then false
  else decide (a.finding.id ≤ b.finding.id)

def ofAll (c : Classifier) (regulations : RegulationMap) (maxDepth : Option Nat)
    (findings : List Finding) : Inquiry (List EnrichedFinding) := do
  return (← ofEach c regulations maxDepth findings).mergeSort before

end EnrichedFinding

end DataReach
