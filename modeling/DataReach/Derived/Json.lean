import DataReach.Derived.Index
import DataReach.Function.Json
/-! The JSON form of the derived documents. -/

namespace DataReach

namespace EntryPoint

def toJson (e : EntryPoint) : Json :=
  .obj [("id", .str e.id), ("name", .str e.name), ("qualified_name", .str e.qualifiedName),
    ("file", .str e.file), ("line", .word e.line),
    ("reachable_functions", .strings e.reachableFunctions),
    ("reachable_tables", .strings e.reachableTables), ("max_depth", .nat e.maxDepth)]

def ofJson? (j : Json) : Option EntryPoint := do
  let r ← j.record ["id", "name", "qualified_name", "file", "line", "reachable_functions",
    "reachable_tables", "max_depth"]
  return {
    id := ← r.need "id" Json.text?
    name := ← r.need "name" Json.text?
    qualifiedName := ← r.need "qualified_name" Json.text?
    file := ← r.need "file" Json.text?
    line := ← r.need "line" Json.word?
    reachableFunctions := ← r.need "reachable_functions" Json.strings?
    reachableTables := ← r.need "reachable_tables" Json.strings?
    maxDepth := ← r.need "max_depth" (Json.natBelow? UInt32.size) }

end EntryPoint

namespace EntryPointList

def toJson (l : EntryPointList) : Json :=
  .obj [("version", .str l.version), ("generated_at", .nat l.generatedAt),
    ("entry_points", .ofList EntryPoint.toJson l.entryPoints)]

def ofJson? (j : Json) : Option EntryPointList := do
  let r ← j.record ["version", "generated_at", "entry_points"]
  return {
    version := ← r.need "version" Json.text?
    generatedAt := ← r.need "generated_at" Json.size?
    entryPoints := ← r.need "entry_points" (Json.list? EntryPoint.ofJson?) }

end EntryPointList

namespace IndexSummary

def toJson (s : IndexSummary) : Json :=
  .obj [("total_files", .nat s.totalFiles), ("total_functions", .nat s.totalFunctions),
    ("total_calls", .nat s.totalCalls), ("resolved_call_sites", .nat s.resolvedCalls),
    ("unresolved_call_sites", .nat s.unresolvedCalls), ("resolution_rate", .float s.resolutionRate),
    ("entry_points", .nat s.entryPoints), ("data_accessors", .nat s.dataAccessors),
    ("avg_depth", .float s.avgDepth)]

def ofJson? (j : Json) : Option IndexSummary := do
  let r ← j.record ["total_files", "total_functions", "total_calls", "resolved_call_sites",
    "unresolved_call_sites", "resolution_rate", "entry_points", "data_accessors", "avg_depth"]
  return {
    totalFiles := ← r.need "total_files" Json.size?
    totalFunctions := ← r.need "total_functions" Json.size?
    totalCalls := ← r.need "total_calls" Json.size?
    resolvedCalls := ← r.need "resolved_call_sites" Json.size?
    unresolvedCalls := ← r.need "unresolved_call_sites" Json.size?
    resolutionRate := ← r.need "resolution_rate" Json.float?
    entryPoints := ← r.need "entry_points" Json.size?
    dataAccessors := ← r.need "data_accessors" Json.size?
    avgDepth := ← r.need "avg_depth" Json.float? }

end IndexSummary

namespace IndexedFile

def toJson (f : IndexedFile) : Json :=
  .obj [("file", .str f.file), ("file_hash", .str f.key), ("function_count", .nat f.functions),
    ("entry_point_count", .nat f.entryPoints), ("data_accessor_count", .nat f.dataAccessors)]

def ofJson? (j : Json) : Option IndexedFile := do
  let r ← j.record ["file", "file_hash", "function_count", "entry_point_count",
    "data_accessor_count"]
  return {
    file := ← r.need "file" Json.text?
    key := ← r.need "file_hash" Json.text?
    functions := ← r.need "function_count" Json.size?
    entryPoints := ← r.need "entry_point_count" Json.size?
    dataAccessors := ← r.need "data_accessor_count" Json.size? }

end IndexedFile

namespace IndexedEntryPoint

def toJson (e : IndexedEntryPoint) : Json :=
  .obj [("id", .str e.id), ("name", .str e.name), ("file", .str e.file), ("line", .word e.line),
    ("reachable_functions", .nat e.reachableFunctions),
    ("reachable_tables", .nat e.reachableTables)]

def ofJson? (j : Json) : Option IndexedEntryPoint := do
  let r ← j.record ["id", "name", "file", "line", "reachable_functions", "reachable_tables"]
  return {
    id := ← r.need "id" Json.text?
    name := ← r.need "name" Json.text?
    file := ← r.need "file" Json.text?
    line := ← r.need "line" Json.word?
    reachableFunctions := ← r.need "reachable_functions" Json.size?
    reachableTables := ← r.need "reachable_tables" Json.size? }

end IndexedEntryPoint

namespace IndexedAccessor

def toJson (a : IndexedAccessor) : Json :=
  .obj [("id", .str a.id), ("name", .str a.name), ("file", .str a.file), ("line", .word a.line),
    ("tables", .strings a.tables), ("operations", .ofList Operation.toJson a.operations)]

def ofJson? (j : Json) : Option IndexedAccessor := do
  let r ← j.record ["id", "name", "file", "line", "tables", "operations"]
  return {
    id := ← r.need "id" Json.text?
    name := ← r.need "name" Json.text?
    file := ← r.need "file" Json.text?
    line := ← r.need "line" Json.word?
    tables := ← r.need "tables" Json.strings?
    operations := ← r.need "operations" (Json.list? Operation.ofJson?) }

end IndexedAccessor

namespace GraphIndex

def toJson (i : GraphIndex) : Json :=
  .obj [("version", .str i.version), ("generated_at", .nat i.generatedAt),
    ("summary", i.summary.toJson), ("files", .ofList IndexedFile.toJson i.files),
    ("top_entry_points", .ofList IndexedEntryPoint.toJson i.topEntryPoints),
    ("top_data_accessors", .ofList IndexedAccessor.toJson i.topAccessors)]

def ofJson? (j : Json) : Option GraphIndex := do
  let r ← j.record ["version", "generated_at", "summary", "files", "top_entry_points",
    "top_data_accessors"]
  return {
    version := ← r.need "version" Json.text?
    generatedAt := ← r.need "generated_at" Json.size?
    summary := ← r.need "summary" IndexSummary.ofJson?
    files := ← r.need "files" (Json.list? IndexedFile.ofJson?)
    topEntryPoints := ← r.need "top_entry_points" (Json.list? IndexedEntryPoint.ofJson?)
    topAccessors := ← r.need "top_data_accessors" (Json.list? IndexedAccessor.ofJson?) }

end GraphIndex

end DataReach
