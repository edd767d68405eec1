import DataReach.Function.Json
/-! What an extractor finds in one source file. -/

namespace DataReach

structure ExtractedFunction where
  name : String
  qualifiedName : Option String
  startLine : UInt32
  endLine : UInt32
  isExported : Bool
  className : Option String
  decorators : List String

structure ExtractedCall where
  calleeName : String
  line : UInt32
  receiver : Option String

structure ExtractedImport where
  source : String
  names : List String
  line : UInt32

structure ExtractedClass where
  name : String
  startLine : UInt32
  endLine : UInt32

structure ExtractedAccess where
  table : String
  fields : List String
  operation : Operation
  line : UInt32
  confidence : Float

structure Extraction where
  file : String
  language : String
  functions : List ExtractedFunction
  calls : List ExtractedCall
  imports : List ExtractedImport
  classes : List ExtractedClass
  accesses : List ExtractedAccess
  errors : List String

def ExtractedFunction.ofJson? (j : Json) : Option ExtractedFunction := do
  let r ← j.record ["name", "qualified_name", "start_line", "end_line", "is_exported",
    "class_name", "decorators"]
  return {
    name := ← r.need "name" Json.text?
    qualifiedName := ← r.option "qualified_name" Json.text?
    startLine := ← r.need "start_line" Json.word?
    endLine := ← r.need "end_line" Json.word?
    isExported := ← r.need "is_exported" Json.bool?
    className := ← r.option "class_name" Json.text?
    decorators := ← r.default "decorators" Json.strings? [] }

def ExtractedCall.ofJson? (j : Json) : Option ExtractedCall := do
  let r ← j.record ["callee_name", "line", "receiver"]
  return {
    calleeName := ← r.need "callee_name" Json.text?
    line := ← r.need "line" Json.word?
    receiver := ← r.option "receiver" Json.text? }

def ExtractedImport.ofJson? (j : Json) : Option ExtractedImport := do
  let r ← j.record ["source", "names", "line"]
  return {
    source := ← r.need "source" Json.text?
    names := ← r.need "names" Json.strings?
    line := ← r.need "line" Json.word? }

def ExtractedClass.ofJson? (j : Json) : Option ExtractedClass := do
  let r ← j.record ["name", "start_line", "end_line"]
  return {
    name := ← r.need "name" Json.text?
    startLine := ← r.need "start_line" Json.word?
    endLine := ← r.need "end_line" Json.word? }

def ExtractedAccess.ofJson? (j : Json) : Option ExtractedAccess := do
  let r ← j.record ["table", "fields", "operation", "line", "confidence"]
  return {
    table := ← r.need "table" Json.text?
    fields := ← r.need "fields" Json.strings?
    operation := ← r.need "operation" Operation.ofJson?
    line := ← r.need "line" Json.word?
    confidence := ← r.need "confidence" Json.float? }

def Extraction.ofJson? (j : Json) : Option Extraction := do
  let r ← j.record ["file", "language", "functions", "calls", "imports", "classes",
    "data_access_points", "errors"]
  return {
    file := ← r.need "file" Json.text?
    language := ← r.need "language" Json.text?
    functions := ← r.need "functions" (Json.list? ExtractedFunction.ofJson?)
    calls := ← r.need "calls" (Json.list? ExtractedCall.ofJson?)
    imports := ← r.need "imports" (Json.list? ExtractedImport.ofJson?)
    classes := ← r.need "classes" (Json.list? ExtractedClass.ofJson?)
    accesses := ← r.need "data_access_points" (Json.list? ExtractedAccess.ofJson?)
    errors := ← r.default "errors" Json.strings? [] }

end DataReach
