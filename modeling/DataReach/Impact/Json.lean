import DataReach.Impact
import DataReach.Reach.Json
/-! The JSON form of impacts. -/

namespace DataReach

def RiskLevel.toJson (r : RiskLevel) : Json := .str r.name

def AffectedFunction.toJson (a : AffectedFunction) : Json :=
  .obj [("id", .str a.id), ("name", .str a.name), ("qualified_name", .str a.qualifiedName),
    ("file", .str a.file), ("line", .word a.line), ("depth", .nat a.depth),
    ("is_entry_point", .bool a.isEntryPoint),
    ("accesses_sensitive_data", .bool a.accessesSensitiveData),
    ("path_to_change", PathNode.pathToJson a.pathToChange)]

namespace DataPath

def toJson (p : DataPath) : Json :=
  .obj [("table", .str p.table), ("fields", .strings p.fields), ("operation", p.operation.toJson),
    ("accessor_id", .str p.accessorId), ("entry_point", .str p.entryPoint),
    ("entry_point_name", .str p.entryPointName), ("full_path", PathNode.pathToJson p.fullPath),
    ("sensitivity", p.sensitivity.toJson)]

def ofJson? (j : Json) : Option DataPath := do
  let r ← j.record ["table", "fields", "operation", "accessor_id", "entry_point",
    "entry_point_name", "full_path", "sensitivity"]
  return {
    table := ← r.need "table" Json.text?
    fields := ← r.need "fields" Json.strings?
    operation := ← r.need "operation" Operation.ofJson?
    accessorId := ← r.need "accessor_id" Json.text?
    entryPoint := ← r.need "entry_point" Json.text?
    entryPointName := ← r.need "entry_point_name" Json.text?
    fullPath := ← r.need "full_path" (Json.list? PathNode.ofJson?)
    sensitivity := ← r.need "sensitivity" Sensitivity.ofJson? }

end DataPath

def ImpactSummary.toJson (s : ImpactSummary) : Json :=
  .obj [("directly_affected", .nat s.directlyAffected),
    ("transitively_affected", .nat s.transitivelyAffected),
    ("affected_entry_points", .nat s.entryPoints), ("affected_data_paths", .nat s.dataPaths),
    ("max_depth", .nat s.maxDepth), ("unresolved_calls", .nat s.unresolvedCalls)]

def Impact.toJson (i : Impact) : Json :=
  .obj ([("target", .str i.target), ("risk", i.risk.toJson), ("risk_score", .word i.riskScore),
    ("summary", i.summary.toJson), ("affected", .ofList AffectedFunction.toJson i.affected),
    ("entry_points", .ofList AffectedFunction.toJson i.entryPoints),
    ("sensitive_data_paths", .ofList DataPath.toJson i.dataPaths),
    ("changed_functions", .strings i.changed)] ++ Json.missing i.graphMissing)

end DataReach
