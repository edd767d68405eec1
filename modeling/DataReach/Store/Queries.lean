import DataReach.Inquiry
import DataReach.Store
/-! Look-ups in the store, and the store as a source of answers about the call graph. -/

namespace DataReach

structure StoreStats where
  files : Nat := 0
  functions : Nat := 0
  calls : Nat := 0
  resolvedCalls : Nat := 0
  entryPoints : Nat := 0
  dataAccessors : Nat := 0
  deriving DecidableEq, Repr, Inhabited

def StoreStats.add (c : StoreStats) (s : Shard) : StoreStats where
  files := c.files + 1
  functions := c.functions + s.functions.length
  calls := c.calls + s.callCount
  resolvedCalls := c.resolvedCalls + s.resolvedCallCount
  entryPoints := c.entryPoints + s.functions.countP (·.isEntryPoint)
  dataAccessors := c.dataAccessors + s.functions.countP (·.isDataAccessor)

def StoreStats.ofShards (shards : List Shard) : StoreStats := shards.foldl add {}

structure TableAccess where
  functionId : String
  functionName : String
  file : String
  access : DataAccess
  deriving DecidableEq, Repr, Inhabited

def TableAccess.le (a b : TableAccess) : Bool :=
  a.functionId < b.functionId ||
    (a.functionId == b.functionId && decide (a.access.line ≤ b.access.line))

def FunctionNode.accessesTo (f : FunctionNode) (table : String) : List TableAccess :=
  (f.dataAccess.filter (·.table == table)).map fun a => ⟨f.id, f.qualifiedName, f.file, a⟩

namespace Store

def isAvailable (s : Store) : Bool :=
  match s.keys with
  | .ok keys => !keys.isEmpty
  | .error _ => false

def ofSweep (f : List Shard → α) : StateM Store (Except StorageError α) := do
  return (← sweep).map f

def stats : StateM Store (Except StorageError StoreStats) := ofSweep StoreStats.ofShards

def function (id : String) : StateM Store (Option FunctionNode) :=
  match FunctionNode.fileOfId id with
  | none => return none
  | some file => do return (← loadPath file).bind (·.function? id)

def selectFrom (p : FunctionNode → Bool) (shards : List Shard) : List FunctionNode :=
  ((shards.flatMap (·.functions)).filter p).mergeSort FunctionNode.idLe

def functionsByTable (table : String) : StateM Store (Except StorageError (List FunctionNode)) :=
  ofSweep (selectFrom (·.accesses table none))

def accessesByTable (table : String) : StateM Store (Except StorageError (List TableAccess)) :=
  ofSweep fun shards =>
    ((shards.flatMap (·.functions)).flatMap (·.accessesTo table)).mergeSort TableAccess.le

def answer : (q : Question) → StateM Store q.Answer
  | .function id => function id
  | .inFile file => do return ((← loadPath file).map (·.functions)).getD []
  | .named name => do
    return match ← ofSweep (selectFrom (·.isNamed name)) with
      | .ok found => found
      | .error _ => []
  | .accessing table field => do
    return match ← functionsByTable table with
      | .ok found => found.filter (·.accesses table field)
      | .error _ => []
  | .isBuilt => do return (← get).isAvailable
  | .location => do return (← get).root

end Store

end DataReach
