import DataReach.Function
import DataReach.Json.Record
/-! The JSON form of functions and shards. -/

namespace DataReach

def Operation.toJson (o : Operation) : Json := .str o.name

def Operation.ofJson? : Json → Option Operation := Json.choice? Operation.named?

def Operation.ofDocument? (j : Json) : Option Operation := j.looseCase?.bind Operation.named?

namespace CallEdge

def toJson (e : CallEdge) : Json :=
  .obj ([("target", .str e.target), ("resolved", .bool e.resolved)] ++
    Json.member? "resolved_id" .str e.resolvedId ++
    [("confidence", .float e.confidence), ("line", .word e.line)])

def ofJson? (j : Json) : Option CallEdge := do
  let r ← j.record ["target", "resolved", "resolved_id", "confidence", "line"]
  return {
    target := ← r.need "target" Json.text?
    resolved := ← r.need "resolved" Json.bool?
    resolvedId := ← r.option "resolved_id" Json.text?
    confidence := ← r.need "confidence" Json.float?
    line := ← r.need "line" Json.word? }

end CallEdge

namespace CallerRef

def toJson (c : CallerRef) : Json :=
  .obj [("caller_id", .str c.callerId), ("line", .word c.line)]

def ofJson? (j : Json) : Option CallerRef := do
  let r ← j.record ["caller_id", "line"]
  return { callerId := ← r.need "caller_id" Json.text?, line := ← r.need "line" Json.word? }

end CallerRef

namespace DataAccess

def toJson (a : DataAccess) : Json :=
  .obj [("table", .str a.table), ("operation", a.operation.toJson), ("line", .word a.line),
    ("fields", .strings a.fields)]

def readWith (operation? : Json → Option Operation) (j : Json) : Option DataAccess := do
  let r ← j.record ["table", "operation", "line", "fields"]
  return {
    table := ← r.need "table" Json.text?
    operation := ← r.need "operation" operation?
    line := ← r.need "line" Json.word?
    fields := ← r.default "fields" Json.strings? [] }

def ofJson? : Json → Option DataAccess := readWith Operation.ofJson?

end DataAccess

namespace FunctionNode

def toJson (f : FunctionNode) : Json :=
  .obj [("id", .str f.id), ("name", .str f.name), ("qualified_name", .str f.qualifiedName),
    ("file", .str f.file), ("start_line", .word f.startLine), ("end_line", .word f.endLine),
    ("is_entry_point", .bool f.isEntryPoint), ("is_data_accessor", .bool f.isDataAccessor),
    ("calls", .ofList CallEdge.toJson f.calls),
    ("called_by", .ofList CallerRef.toJson f.calledBy),
    ("data_access", .ofList DataAccess.toJson f.dataAccess)]

def readWith (operation? : Json → Option Operation) (j : Json) : Option FunctionNode := do
  let r ← j.record ["id", "name", "qualified_name", "file", "start_line", "end_line",
    "is_entry_point", "is_data_accessor", "calls", "called_by", "data_access"]
  return {
    id := ← r.need "id" Json.text?
    name := ← r.need "name" Json.text?
    qualifiedName := ← r.need "qualified_name" Json.text?
    file := ← r.need "file" Json.text?
    startLine := ← r.need "start_line" Json.word?
    endLine := ← r.need "end_line" Json.word?
    isEntryPoint := ← r.need "is_entry_point" Json.bool?
    isDataAccessor := ← r.need "is_data_accessor" Json.bool?
    calls := ← r.need "calls" (Json.list? CallEdge.ofJson?)
    calledBy := ← r.default "called_by" (Json.list? CallerRef.ofJson?) []
    dataAccess := ← r.default "data_access" (Json.list? (DataAccess.readWith operation?)) [] }

def ofJson? : Json → Option FunctionNode := readWith Operation.ofJson?

end FunctionNode

namespace Shard

def toJson (s : Shard) : Json :=
  .obj [("file", .str s.file), ("functions", .ofList FunctionNode.toJson s.functions)]

def readWith (operation? : Json → Option Operation) (r : Record) : Option Shard := do
  return {
    file := ← r.need "file" Json.text?
    functions := ← r.need "functions" (Json.list? (FunctionNode.readWith operation?)) }

def ofJson? (j : Json) : Option Shard := do
  readWith Operation.ofJson? (← j.record ["file", "functions"])

end Shard

end DataReach
