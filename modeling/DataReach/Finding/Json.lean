import DataReach.Finding.Enrichment
import DataReach.Impact.Json
/-! The JSON form of findings and priorities. -/

namespace DataReach

def Severity.ofJson? : Json → Option Severity := Json.choice? Severity.named?

def Category.ofJson? : Json → Option Category := Json.choice? Category.named?

def Exposure.ofJson? : Json → Option Exposure := Json.choice? Exposure.named?

def Regulation.toJson (r : Regulation) : Json := .str r.name

def Regulation.ofJson? : Json → Option Regulation := Json.choice? Regulation.named?

namespace Finding

def toJson (f : Finding) : Json :=
  .obj [("id", .str f.id), ("file", .str f.file), ("line", .word f.line),
    ("severity", .str f.severity.name), ("category", .str f.category.name),
    ("cvss", .ofOption .float f.cvss), ("exposure", .ofOption (fun e => .str e.name) f.exposure)]

def ofJson? (j : Json) : Option Finding := do
  let r ← j.record ["id", "file", "line", "severity", "category", "cvss", "exposure"]
  return {
    id := ← r.need "id" Json.text?
    file := ← r.need "file" Json.text?
    line := ← r.need "line" Json.word?
    severity := ← r.need "severity" Severity.ofJson?
    category := ← r.need "category" Category.ofJson?
    cvss := ← r.option "cvss" Json.float?
    exposure := ← r.option "exposure" Exposure.ofJson? }

end Finding

namespace FieldImpact

def toJson (f : FieldImpact) : Json :=
  .obj [("table", .str f.table), ("field", .str f.field), ("sensitivity", f.sensitivity.toJson),
    ("operations", .ofList Operation.toJson f.operations), ("depth", .nat f.depth)]

def ofJson? (j : Json) : Option FieldImpact := do
  let r ← j.record ["table", "field", "sensitivity", "operations", "depth"]
  return {
    table := ← r.need "table" Json.text?
    field := ← r.need "field" Json.text?
    sensitivity := ← r.need "sensitivity" Sensitivity.ofJson?
    operations := ← r.need "operations" (Json.list? Operation.ofJson?)
    depth := ← r.need "depth" (Json.natBelow? UInt32.size) }

end FieldImpact

namespace DataImpact

def toJson (d : DataImpact) : Json :=
  .obj [("fields", .ofList FieldImpact.toJson d.fields), ("tables", .strings d.tables),
    ("functions_reached", .word d.functionsReached), ("max_depth", .nat d.maxDepth),
    ("regulations", .ofList Regulation.toJson d.regulations)]

def ofJson? (j : Json) : Option DataImpact := do
  let r ← j.record ["fields", "tables", "functions_reached", "max_depth", "regulations"]
  return {
    fields := ← r.need "fields" (Json.list? FieldImpact.ofJson?)
    tables := ← r.need "tables" Json.strings?
    functionsReached := ← r.need "functions_reached" Json.word?
    maxDepth := ← r.need "max_depth" (Json.natBelow? UInt32.size)
    regulations := ← r.need "regulations" (Json.list? Regulation.ofJson?) }

end DataImpact

def BlastRadius.toJson (b : BlastRadius) : Json :=
  .obj [("exposure", .str b.exposure.name), ("affected_functions", .word b.affectedFunctions),
    ("entry_points", .word b.entryPoints), ("lines_of_code", .word b.linesOfCode),
    ("avg_call_depth", .float b.avgCallDepth), ("contained", .bool b.contained)]

def Factor.toJson (f : Factor) : Json :=
  .obj [("name", .str f.name), ("description", .str f.description)]

def Priority.toJson (p : Priority) : Json :=
  .obj [("overall", .float p.overall), ("tier", .str p.tier.name),
    ("severity_score", .float p.severityScore), ("data_impact_score", .float p.dataImpactScore),
    ("blast_radius_score", .float p.blastRadiusScore),
    ("exploitability_score", .float p.exploitabilityScore),
    ("increasing_factors", .ofList Factor.toJson p.increasing),
    ("decreasing_factors", .ofList Factor.toJson p.decreasing)]

def EnrichedFinding.toJson (e : EnrichedFinding) : Json :=
  .obj ([("finding", e.finding.toJson), ("function_id", .ofOption .str e.functionId),
    ("data_impact", e.dataImpact.toJson), ("blast_radius", e.blastRadius.toJson),
    ("change_risk", e.changeRisk.toJson), ("priority", e.priority.toJson)] ++
    Json.missing e.graphMissing)

end DataReach
