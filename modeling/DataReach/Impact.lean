import DataReach.Impact.Risk
import DataReach.Reach.Backward
import DataReach.Reach.Data
/-!
What a change of functions affects: the functions that call them, the entry points among these, and
the paths from the entry points through the change to sensitive data.
-/

namespace DataReach

structure AffectedFunction where
  id : String
  name : String
  qualifiedName : String
  file : String
  line : UInt32
  /-- Calls up to the change; 0 for a changed function. -/
  depth : Nat
  isEntryPoint : Bool
  accessesSensitiveData : Bool
  /-- From this function to the changed one. -/
  pathToChange : List PathNode
  deriving DecidableEq, Repr, Inhabited

/-- A way for an entry point to reach sensitive data through the change. -/
structure DataPath where
  table : String
  fields : List String
  operation : Operation
  accessorId : String
  entryPoint : String
  entryPointName : String
  /-- From the entry point to the accessor. -/
  fullPath : List PathNode
  sensitivity : Sensitivity
  deriving DecidableEq, Repr, Inhabited

structure ImpactSummary where
  directlyAffected : Nat := 0
  transitivelyAffected : Nat := 0
  entryPoints : Nat := 0
  dataPaths : Nat := 0
  maxDepth : Nat := 0
  unresolvedCalls : Nat := 0
  deriving DecidableEq, Repr, Inhabited

structure Impact where
  /-- The file, id or name that was asked about. -/
  target : String
  risk : RiskLevel := .low
  riskScore : UInt32 := 0
  summary : ImpactSummary := {}
  /-- Ascending by depth and id. -/
  affected : List AffectedFunction := []
  /-- Ascending by depth and id. -/
  entryPoints : List AffectedFunction := []
  dataPaths : List DataPath := []
  /-- Ascending. -/
  changed : List String := []
  graphMissing : Option GraphError := none
  deriving Inhabited

namespace AffectedFunction

def ofFunction (f : FunctionNode) (depth : Nat) (sensitive : Bool) (path : List PathNode) :
    AffectedFunction :=
  ⟨f.id, f.name, f.qualifiedName, f.file, f.startLine, depth, f.isEntryPoint, sensitive, path⟩

def le (a b : AffectedFunction) : Bool :=
  a.depth < b.depth || (a.depth == b.depth && decide (a.id ≤ b.id))

end AffectedFunction

/-- A sensitive access that a changed function reaches. -/
structure Hit where
  access : ReachedAccess
  sensitivity : Sensitivity
  deriving Inhabited

structure Caller where
  node : FunctionNode
  depth : Nat
  path : List PathNode
  deriving Inhabited

/-- Of the paths with one key the shortest is kept, the first of several. -/
structure DataPathKey where
  entryPoint : String
  accessorId : String
  table : String
  line : UInt32
  operation : Operation
  deriving DecidableEq, Repr

def DataPathKey.le (a b : DataPathKey) : Bool :=
  ((compare a.entryPoint b.entryPoint).then <| (compare a.accessorId b.accessorId).then <|
    (compare a.table b.table).then <| (compare a.line b.line).then <|
    compare a.operation.rank b.operation.rank).isLE

namespace Impact

def hits (c : Classifier) (maxDepth : Option Nat) (f : FunctionNode) : Inquiry (List Hit) := do
  let reach ← Reach.forward c { maxDepth, sensitiveOnly := true } f.id
  return reach.accesses.map fun a => ⟨a, c.classifyAccess a.access⟩

def hitsOfAll (c : Classifier) (maxDepth : Option Nat) :
    List FunctionNode → Inquiry (List (FunctionNode × List Hit))
  | [] => return []
  | f :: rest => do
    let own ← hits c maxDepth f
    return (f, own) :: (← hitsOfAll c maxDepth rest)

def callersOf (changed : List FunctionNode) (maxDepth : Option Nat) : Inquiry (List Caller) := do
  let climb ← Backward.climb (fun _ => false) changed maxDepth
  return (climb.found.filter (0 < ·.2)).map fun r => ⟨r.1, r.2, climb.links.unwind r.1.id⟩

def affectedOf (c : Classifier) (maxDepth : Option Nat) :
    List Caller → Inquiry (List AffectedFunction)
  | [] => return []
  | r :: rest => do
    let own ← hits c maxDepth r.node
    return .ofFunction r.node r.depth (!own.isEmpty) r.path :: (← affectedOf c maxDepth rest)

def entryPointsOf (changed : List (FunctionNode × List Hit)) (affected : List AffectedFunction) :
    List AffectedFunction :=
  let own := (changed.filter (·.1.isEntryPoint)).map fun (f, hits) =>
    AffectedFunction.ofFunction f 0 (!hits.isEmpty) [.ofFunction f]
  (own ++ affected.filter (·.isEntryPoint)).mergeSort AffectedFunction.le

def routes (f : FunctionNode) (callers : List Caller) : Dict String (List PathNode) :=
  (if f.isEntryPoint then [(f.id, [PathNode.ofFunction f])] else []) ++
    (callers.filter (·.node.isEntryPoint)).map fun r => (r.node.id, r.path)

/-- The route of an entry point into the function goes on with the way to the access; an entry point
without one takes its own way into the change, followed by that from the function on. -/
def fullPath (routes : Dict String (List PathNode)) (entry : AffectedFunction) (hit : Hit) :
    List PathNode :=
  match routes.get? entry.id with
  | some route => route ++ hit.access.path.drop 1
  | none => entry.pathToChange ++ hit.access.path

def dataPath (routes : Dict String (List PathNode)) (entry : AffectedFunction) (hit : Hit) :
    DataPathKey × DataPath :=
  let a := hit.access.access
  (⟨entry.id, hit.access.functionId, a.table, a.line, a.operation⟩,
    ⟨a.table, a.fields, a.operation, hit.access.functionId, entry.id, entry.qualifiedName,
      fullPath routes entry hit, hit.sensitivity⟩)

def offer (best : Dict DataPathKey DataPath) (p : DataPathKey × DataPath) :
    Dict DataPathKey DataPath :=
  match best.get? p.1 with
  | some q => if p.2.fullPath.length < q.fullPath.length then best.insert p.1 p.2 else best
  | none => best.insert p.1 p.2

def dataPathsFrom (maxDepth : Option Nat) (entries : List AffectedFunction) :
    Dict DataPathKey DataPath → List (FunctionNode × List Hit) →
      Inquiry (Dict DataPathKey DataPath)
  | best, [] => return best
  | best, (f, hits) :: rest =>
    if hits.isEmpty then dataPathsFrom maxDepth entries best rest
    else do
      let routes := routes f (← callersOf [f] maxDepth)
      let found := entries.flatMap fun e => hits.map (dataPath routes e)
      dataPathsFrom maxDepth entries (found.foldl offer best) rest

def dataPathsOf (maxDepth : Option Nat) (entries : List AffectedFunction)
    (changed : List (FunctionNode × List Hit)) : Inquiry (List DataPath) := do
  let best ← dataPathsFrom maxDepth entries [] changed
  return Dict.values (best.mergeSort fun a b => a.1.le b.1)

def distinctById (functions : List FunctionNode) : List FunctionNode :=
  distinctBy (·.id) (functions.mergeSort FunctionNode.idLe)

def summarize (changed : List FunctionNode) (callers : List Caller)
    (affected entries : List AffectedFunction) (paths : List DataPath) : ImpactSummary where
  directlyAffected := affected.countP (·.depth == 1)
  transitivelyAffected := affected.countP (1 < ·.depth)
  entryPoints := entries.length
  dataPaths := paths.length
  maxDepth := (affected.map (·.depth)).foldl max 0
  unresolvedCalls :=
    total (·.unresolvedCalls) changed + total (·.node.unresolvedCalls) callers

/-- The impact of changing functions, in a graph that is there. -/
def ofChanged (c : Classifier) (maxDepth : Option Nat) (target : String)
    (changed : List FunctionNode) : Inquiry Impact := do
  let withHits ← hitsOfAll c maxDepth changed
  let callers ← callersOf changed maxDepth
  let affected := (← affectedOf c maxDepth callers).mergeSort AffectedFunction.le
  let entries := entryPointsOf withHits affected
  let paths ← dataPathsOf maxDepth entries withHits
  let counts := PathCounts.ofClasses (paths.map (·.sensitivity))
  let score := Risk.score affected.length entries.length counts
  return {
    target
    risk := Risk.level score counts
    riskScore := score
    summary := summarize changed callers affected entries paths
    affected
    entryPoints := entries
    dataPaths := paths
    changed := changed.map (·.id) }

def analyze (c : Classifier) (maxDepth : Option Nat) (target : String)
    (functions : List FunctionNode) : Inquiry Impact := do
  match ← Inquiry.missing? with
  | some e => return { target, graphMissing := some e }
  | none =>
    if functions.isEmpty then return { target }
    else ofChanged c maxDepth target (distinctById functions)

def ofFile (c : Classifier) (maxDepth : Option Nat) (file : String) : Inquiry Impact := do
  analyze c maxDepth file (← Inquiry.inFile file)

def ofFunction (c : Classifier) (maxDepth : Option Nat) (id : String) : Inquiry Impact := do
  analyze c maxDepth id (← Inquiry.function id).toList

def ofName (c : Classifier) (maxDepth : Option Nat) (name : String) : Inquiry Impact := do
  analyze c maxDepth name (← Inquiry.named name)

def isEmpty (i : Impact) : Bool := i.changed.isEmpty

end Impact

end DataReach
