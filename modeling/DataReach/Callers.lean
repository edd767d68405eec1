import DataReach.Dict
import DataReach.Function
import DataReach.SortBy
/-! Who calls whom: each caller of a function with the first line from which it calls. -/

namespace DataReach

abbrev CallerMap := Dict String (Dict String UInt32)

namespace CallerMap

def addCall (m : CallerMap) (callee caller : String) (line : UInt32) : CallerMap :=
  m.alter callee fun callers =>
    (callers.getD []).alter caller fun
      | some l => min l line
      | none => line

def addFunction (m : CallerMap) (f : FunctionNode) : CallerMap :=
  f.calls.foldl
    (fun m e =>
      match e.callee? with
      | some callee => m.addCall callee f.id e.line
      | none => m) m

def addShard (m : CallerMap) (s : Shard) : CallerMap :=
  s.functions.foldl addFunction m

def ofShards (shards : List Shard) : CallerMap :=
  shards.foldl addShard []

def refs (m : CallerMap) (id : String) : List CallerRef :=
  sortBy (fun a b => decide (a.callerId ≤ b.callerId))
    (((m.get? id).getD []).map fun p => CallerRef.mk p.1 p.2)

end CallerMap

namespace Shard

def withCallers (s : Shard) (m : CallerMap) : Shard :=
  { s with functions := s.functions.map fun f => { f with calledBy := m.refs f.id } }

def needsCallers (s : Shard) (m : CallerMap) : Bool :=
  s.functions.any fun f => f.calledBy != m.refs f.id

end Shard

end DataReach
