import DataReach.Distinct
import DataReach.Extraction
import DataReach.Extraction.Route
import DataReach.Extraction.TableName
/-!
The shard of an extraction. Functions are kept once per id and ordered by start line and name; each
call and each access to a table goes to the innermost function around its line.
-/

namespace DataReach

namespace ExtractedClass

def encloses (c : ExtractedClass) (line : UInt32) : Bool :=
  c.startLine ≤ line && line ≤ c.endLine

def span (c : ExtractedClass) : UInt32 :=
  if c.startLine ≤ c.endLine then c.endLine - c.startLine else 0

def smallest : List ExtractedClass → Option ExtractedClass
  | [] => none
  | c :: rest =>
    match smallest rest with
    | none => some c
    | some d => if d.span < c.span then some d else some c

end ExtractedClass

namespace ExtractedFunction

def className? (f : ExtractedFunction) (classes : List ExtractedClass) : Option String :=
  f.className.orElse fun _ =>
    (ExtractedClass.smallest (classes.filter (·.encloses f.startLine))).map (·.name)

/-- The name given, if it is not empty, else the simple name behind that of its class. -/
def qualified (f : ExtractedFunction) (classes : List ExtractedClass) : String :=
  match f.qualifiedName.filter (!·.isEmpty) with
  | some q => q
  | none =>
    match f.className? classes with
    | some c => c ++ "." ++ f.name
    | none => f.name

def toNode (file : String) (classes : List ExtractedClass) (f : ExtractedFunction) :
    FunctionNode where
  id := FunctionNode.makeId file f.name f.startLine
  name := f.name
  qualifiedName := f.qualified classes
  file := file
  startLine := f.startLine
  endLine := max f.endLine f.startLine
  isEntryPoint := f.isExported || f.decorators.any Route.isHandler
  isDataAccessor := false
  calls := []
  calledBy := []
  dataAccess := []

end ExtractedFunction

namespace ExtractedCall

def selfReceivers : List String := ["self", "this", "cls", "super", "$this"]

def target (c : ExtractedCall) : String :=
  match c.receiver with
  | some r =>
    if r.isEmpty || selfReceivers.contains r then c.calleeName else r ++ "." ++ c.calleeName
  | none => c.calleeName

end ExtractedCall

def ExtractedAccess.toAccess (a : ExtractedAccess) : DataAccess :=
  ⟨Text.trim a.table, a.operation, a.line, a.fields⟩

namespace Extraction

def byPosition (a b : FunctionNode) : Bool :=
  a.startLine < b.startLine || (a.startLine == b.startLine && decide (a.name ≤ b.name))

def nodes (file : String) (e : Extraction) : List FunctionNode :=
  (distinctBy (·.id) (e.functions.map (·.toNode file e.classes))).mergeSort byPosition

def callsAt (functions : List FunctionNode) (calls : List ExtractedCall) (i : Nat) :
    List CallEdge :=
  let own := calls.filter fun c => innermostPosition functions c.line == some i
  (own.map fun c => CallEdge.unresolved c.target c.line).mergeSort
    fun a b => decide (a.line ≤ b.line)

def accessesAt (functions : List FunctionNode) (accesses : List ExtractedAccess) (i : Nat) :
    List DataAccess :=
  let own := accesses.filter fun a =>
    TableName.isValid a.table && innermostPosition functions a.line == some i
  (own.map ExtractedAccess.toAccess).mergeSort fun a b => decide (a.line ≤ b.line)

def attach (functions : List FunctionNode) (calls : List ExtractedCall)
    (accesses : List ExtractedAccess) (f : FunctionNode) (i : Nat) : FunctionNode :=
  let own := accessesAt functions accesses i
  { f with
    calls := callsAt functions calls i
    dataAccess := own
    isDataAccessor := !own.isEmpty }

def shard (file : String) (e : Extraction) (accesses : List ExtractedAccess) : Shard :=
  let functions := nodes file e
  ⟨file, functions.zipIdx.map fun (f, i) => attach functions e.calls accesses f i⟩

end Extraction

end DataReach
