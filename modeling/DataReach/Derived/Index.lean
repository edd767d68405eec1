import DataReach.Derived.Survey
/-!
The two documents that are made from all shards: an index with totals, files and the foremost entry
points and accessors, and a list of what every entry point reaches.
-/

namespace DataReach

structure EntryPoint where
  id : String
  name : String
  qualifiedName : String
  file : String
  line : UInt32
  reachableFunctions : List String
  reachableTables : List String
  maxDepth : Nat
  deriving DecidableEq, Repr, Inhabited

structure EntryPointList where
  version : String
  generatedAt : Nat
  /-- Ascending by id. -/
  entryPoints : List EntryPoint
  deriving DecidableEq, Repr, Inhabited

/-- What is counted function by function in a pass over all shards. -/
structure Totals where
  functions : Nat := 0
  calls : Nat := 0
  resolvedCalls : Nat := 0
  deriving DecidableEq, Repr, Inhabited

structure IndexSummary where
  totalFiles : Nat
  totalFunctions : Nat
  totalCalls : Nat
  resolvedCalls : Nat
  unresolvedCalls : Nat
  resolutionRate : Float
  entryPoints : Nat
  dataAccessors : Nat
  avgDepth : Float
  deriving Inhabited

structure IndexedFile where
  file : String
  key : String
  functions : Nat
  entryPoints : Nat
  dataAccessors : Nat
  deriving DecidableEq, Repr, Inhabited

structure IndexedEntryPoint where
  id : String
  name : String
  file : String
  line : UInt32
  reachableFunctions : Nat
  reachableTables : Nat
  deriving DecidableEq, Repr, Inhabited

structure IndexedAccessor where
  id : String
  name : String
  file : String
  line : UInt32
  tables : List String
  operations : List Operation
  deriving DecidableEq, Repr, Inhabited

structure GraphIndex where
  version : String
  generatedAt : Nat
  summary : IndexSummary
  /-- Ascending by file. -/
  files : List IndexedFile
  /-- Most tables first, then most functions, then by id. -/
  topEntryPoints : List IndexedEntryPoint
  /-- Most tables first, then by id. -/
  topAccessors : List IndexedAccessor
  deriving Inhabited

def EntryPoint.ofFunction (survey : Survey) (f : FunctionNode) : EntryPoint :=
  let extent := survey.extent f.id
  ⟨f.id, f.name, f.qualifiedName, f.file, f.startLine, extent.functions, extent.tables,
    extent.maxDepth⟩

def EntryPoint.ofShards (shards : List Shard) : List EntryPoint :=
  let survey := Survey.ofShards shards
  let entries := (shards.flatMap (·.functions)).filter (·.isEntryPoint)
  sortBy (fun a b => decide (a.id ≤ b.id)) (entries.map (EntryPoint.ofFunction survey))

def IndexedFile.ofShard (s : Shard) : IndexedFile :=
  ⟨s.file, s.key, s.functions.length, s.functions.countP (·.isEntryPoint),
    s.functions.countP (·.isDataAccessor)⟩

namespace IndexedEntryPoint

def ofEntryPoint (e : EntryPoint) : IndexedEntryPoint :=
  ⟨e.id, e.name, e.file, e.line, e.reachableFunctions.length, e.reachableTables.length⟩

def before (a b : IndexedEntryPoint) : Bool :=
  ((compare b.reachableTables a.reachableTables).then <|
    (compare b.reachableFunctions a.reachableFunctions).then <| compare a.id b.id).isLE

end IndexedEntryPoint

namespace IndexedAccessor

def ofFunction (f : FunctionNode) : IndexedAccessor :=
  ⟨f.id, f.name, f.file, f.startLine, f.tables,
    Operation.all.filter fun o => f.dataAccess.any (·.operation == o)⟩

def before (a b : IndexedAccessor) : Bool :=
  ((compare b.tables.length a.tables.length).then <| compare a.id b.id).isLE

end IndexedAccessor

def rate (part whole : Nat) : Float :=
  if whole = 0 then 0.0 else part.toFloat / whole.toFloat

def Totals.add (t : Totals) (f : FunctionNode) : Totals where
  functions := t.functions + 1
  calls := t.calls + f.calls.length
  resolvedCalls := t.resolvedCalls + (f.calls.filter (·.resolved)).length

def IndexSummary.ofShards (shards : List Shard) (entries : List EntryPoint) : IndexSummary :=
  let functions := shards.flatMap (·.functions)
  let totals := functions.foldl Totals.add {}
  { totalFiles := shards.length
    totalFunctions := totals.functions
    totalCalls := totals.calls
    resolvedCalls := totals.resolvedCalls
    unresolvedCalls := totals.calls - totals.resolvedCalls
    resolutionRate := rate totals.resolvedCalls totals.calls
    entryPoints := (functions.filter (·.isEntryPoint)).length
    dataAccessors := (functions.filter (·.isDataAccessor)).length
    avgDepth :=
      if entries.isEmpty then 0.0
      else (entries.map (·.maxDepth.toFloat)).foldl (· + ·) 0.0 / entries.length.toFloat }

def GraphIndex.ofShards (version : String) (now topN : Nat) (shards : List Shard)
    (entries : List EntryPoint) : GraphIndex where
  version := version
  generatedAt := now
  summary := IndexSummary.ofShards shards entries
  files := sortBy (fun a b => decide (a.file ≤ b.file)) (shards.map IndexedFile.ofShard)
  topEntryPoints :=
    (sortBy IndexedEntryPoint.before (entries.map IndexedEntryPoint.ofEntryPoint)).take topN
  topAccessors :=
    (sortBy IndexedAccessor.before (((shards.flatMap (·.functions)).filter (·.isDataAccessor)).map
      IndexedAccessor.ofFunction)).take topN

end DataReach
