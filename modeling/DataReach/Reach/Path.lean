import DataReach.Function
/-! Steps of a path through the call graph. -/

namespace DataReach

structure PathNode where
  functionId : String
  functionName : String
  file : String
  line : UInt32
  deriving DecidableEq, Repr, Inhabited

def PathNode.ofFunction (f : FunctionNode) : PathNode :=
  ⟨f.id, f.qualifiedName, f.file, f.startLine⟩

/-- The greatest depth, and the bound of a search that was given none. -/
def depthLimit : Nat := UInt32.size - 1

end DataReach
