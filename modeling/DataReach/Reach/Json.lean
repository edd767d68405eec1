import DataReach.Function.Json
import DataReach.Reach.Data
import DataReach.Reach.Inverse
/-! The JSON form of what a search finds. -/

namespace DataReach

def Sensitivity.toJson (s : Sensitivity) : Json := .str s.name

def Sensitivity.ofJson? : Json → Option Sensitivity := Json.choice? Sensitivity.named?

def Json.missing (e : Option GraphError) : List (String × Json) :=
  Json.member? "graph_missing" (fun e => .str e.message) e

namespace PathNode

def toJson (p : PathNode) : Json :=
  .obj [("function_id", .str p.functionId), ("function_name", .str p.functionName),
    ("file", .str p.file), ("line", .word p.line)]

def ofJson? (j : Json) : Option PathNode := do
  let r ← j.record ["function_id", "function_name", "file", "line"]
  return {
    functionId := ← r.need "function_id" Json.text?
    functionName := ← r.need "function_name" Json.text?
    file := ← r.need "file" Json.text?
    line := ← r.need "line" Json.word? }

def pathToJson (path : List PathNode) : Json := .ofList toJson path

end PathNode

def CodeLocation.toJson (l : CodeLocation) : Json :=
  .obj [("file", .str l.file), ("line", .word l.line), ("function_id", .ofOption .str l.functionId)]

def ReachedAccess.toJson (a : ReachedAccess) : Json :=
  .obj [("function_id", .str a.functionId), ("file", .str a.file), ("access", a.access.toJson),
    ("path", PathNode.pathToJson a.path), ("depth", .nat a.depth)]

def SensitiveField.toJson (f : SensitiveField) : Json :=
  .obj [("table", .str f.table), ("field", .str f.field), ("sensitivity", f.sensitivity.toJson)]

def ReachedField.toJson (f : ReachedField) : Json :=
  .obj [("field", f.field.toJson), ("paths", .ofList PathNode.pathToJson f.paths),
    ("access_count", .word f.accessCount)]

def Reach.toJson (r : Reach) : Json :=
  .obj ([("origin", r.origin.toJson), ("tables", .strings r.tables),
    ("sensitive_fields", .ofList ReachedField.toJson r.sensitiveFields),
    ("reachable_access", .ofList ReachedAccess.toJson r.accesses),
    ("functions_traversed", .word r.functionsTraversed),
    ("max_depth_reached", .nat r.maxDepthReached),
    ("unresolved_calls", .word r.unresolvedCalls)] ++ Json.missing r.graphMissing)

def InversePath.toJson (p : InversePath) : Json :=
  .obj [("entry_point", .str p.entryPoint), ("path", PathNode.pathToJson p.path),
    ("accessor_id", .str p.accessorId), ("access_point", p.access.toJson)]

def InverseReach.toJson (r : InverseReach) : Json :=
  .obj ([("target", .obj [("table", .str r.table), ("field", .ofOption .str r.field)]),
    ("total_accessors", .word r.totalAccessors), ("entry_points", .strings r.entryPoints),
    ("access_paths", .ofList InversePath.toJson r.paths),
    ("functions_traversed", .word r.functionsTraversed)] ++ Json.missing r.graphMissing)

end DataReach
