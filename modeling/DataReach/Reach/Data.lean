import DataReach.Distinct
import DataReach.Reach.Forward
import DataReach.Sensitivity.Classifier
import DataReach.SortBy
/-! The data that a function reaches. -/

namespace DataReach

structure CodeLocation where
  file : String := ""
  line : UInt32 := 0
  functionId : Option String := none
  deriving DecidableEq, Repr, Inhabited

structure ReachedAccess where
  functionId : String
  file : String
  access : DataAccess
  /-- From the origin to the function with the access. -/
  path : List PathNode
  depth : Nat
  deriving DecidableEq, Repr, Inhabited

structure SensitiveField where
  table : String
  field : String
  sensitivity : Sensitivity
  deriving DecidableEq, Repr, Inhabited

/-- A sensitive field with the distinct paths to it and the number of accesses. -/
structure ReachedField where
  field : SensitiveField
  paths : List (List PathNode)
  accessCount : UInt32
  deriving DecidableEq, Repr, Inhabited

structure Reach where
  origin : CodeLocation
  /-- Ascending, each once. -/
  tables : List String := []
  /-- Ascending by table and field. -/
  sensitiveFields : List ReachedField := []
  accesses : List ReachedAccess := []
  functionsTraversed : UInt32 := 0
  maxDepthReached : Nat := 0
  unresolvedCalls : UInt32 := 0
  graphMissing : Option GraphError := none
  deriving Inhabited

structure ReachOptions where
  maxDepth : Option Nat := none
  sensitiveOnly : Bool := false
  /-- The tables that count; all of them when there are none. -/
  tables : List String := []

def ReachOptions.admits (o : ReachOptions) (table : String) : Bool :=
  o.tables.isEmpty || o.tables.contains table

def Visit.accesses (v : Visit) (o : ReachOptions) : List ReachedAccess :=
  (v.node.dataAccess.filter fun a => o.admits a.table).map
    fun a => ⟨v.node.id, v.node.file, a, v.path, v.depth⟩

def wholeTable : String := "*"

namespace DataAccess

def classified (c : Classifier) (a : DataAccess) : List SensitiveField :=
  if a.fields.isEmpty then [⟨a.table, wholeTable, c.classify a.table⟩]
  else a.fields.map fun f => ⟨a.table, f, c.classifyField a.table f⟩

def sensitive (c : Classifier) (a : DataAccess) : List SensitiveField :=
  (a.classified c).filter (·.sensitivity.isSensitive)

end DataAccess

namespace SensitiveField

def le (a b : SensitiveField) : Bool :=
  a.table < b.table || (a.table == b.table && decide (a.field ≤ b.field))

def key (f : SensitiveField) : String × String := (f.table, f.field)

end SensitiveField

namespace Reach

def touches (c : Classifier) (accesses : List ReachedAccess) :
    List (SensitiveField × List PathNode) :=
  accesses.flatMap fun a => (a.access.sensitive c).map (·, a.path)

def fieldsOf (touches : List (SensitiveField × List PathNode)) : List ReachedField :=
  ((distinctBy SensitiveField.key (touches.map (·.1))).mergeSort SensitiveField.le).map fun f =>
    let own := touches.filter fun t => t.1.key == f.key
    ⟨f, distinct (own.map (·.2)), wordTotal (fun _ => 1) own⟩

def tablesOf (accesses : List ReachedAccess) : List String :=
  sortBy (fun a b => decide (a ≤ b)) (distinct (accesses.map (·.access.table)))

def ofVisits (c : Classifier) (o : ReachOptions) (origin : CodeLocation) (visits : List Visit) :
    Reach :=
  let all := visits.flatMap (·.accesses o)
  let kept := if o.sensitiveOnly then all.filter fun a => (c.classifyAccess a.access).isSensitive
    else all
  { origin
    tables := tablesOf kept
    sensitiveFields := fieldsOf (touches c kept)
    accesses := kept
    functionsTraversed := wordTotal (fun _ => 1) visits
    maxDepthReached := (visits.map (·.depth)).foldl max 0
    unresolvedCalls := wordTotal (·.node.unresolvedCalls) visits }

def forward (c : Classifier) (o : ReachOptions) (id : String) : Inquiry Reach := do
  match ← Inquiry.function id with
  | none => return { origin := { functionId := some id } }
  | some f =>
    let visits ← Forward.visits f o.maxDepth
    return ofVisits c o ⟨f.file, f.startLine, some f.id⟩ visits

def fromFunction (c : Classifier) (o : ReachOptions) (id : String) : Inquiry Reach := do
  match ← Inquiry.missing? with
  | some e => return { origin := { functionId := some id }, graphMissing := some e }
  | none => forward c o id

def fromLine (c : Classifier) (o : ReachOptions) (file : String) (line : UInt32) :
    Inquiry Reach := do
  match ← Inquiry.missing? with
  | some e => return { origin := { file, line }, graphMissing := some e }
  | none =>
    match innermost (← Inquiry.inFile file) line with
    | none => return { origin := { file, line } }
    | some f => forward c o f.id

def pathsTo (c : Classifier) (file : String) (line : UInt32) (table : String)
    (field : Option String) : Inquiry (List (List PathNode)) := do
  let reach ← fromLine c { tables := [table] } file line
  return (reach.accesses.filter fun a => a.access.matches table field).map (·.path)

def maxSensitivity (r : Reach) : Sensitivity :=
  Sensitivity.worst (r.sensitiveFields.map (·.field.sensitivity))

end Reach

end DataReach
