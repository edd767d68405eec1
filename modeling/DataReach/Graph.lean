import DataReach.Dict
import DataReach.Inquiry
/-! A call graph held in memory. -/

namespace DataReach

/-- The functions by id, the one added last counting, and the ids by file in the order in which
they came. An id stays with every file it was ever added under. -/
structure CallGraph where
  functions : Dict String FunctionNode
  byFile : Dict String (List String)
  once : functions.keys.Nodup
  keyed : ∀ entry ∈ functions, entry.2.id = entry.1

namespace CallGraph

def empty : CallGraph where
  functions := []
  byFile := []
  once := List.nodup_nil
  keyed := fun _ member => nomatch member

instance : Inhabited CallGraph := ⟨empty⟩

def insert (g : CallGraph) (f : FunctionNode) : CallGraph where
  functions := g.functions.insert f.id f
  byFile := g.byFile.alter f.file fun found =>
    let ids := found.getD []
    if ids.contains f.id then ids else ids ++ [f.id]
  once := g.functions.nodup_keys_alter f.id (fun _ => f) g.once
  keyed := by
    intro entry member
    rcases Dict.mem_insert member with old | rfl
    · exact g.keyed entry old
    · rfl

def ofShards (shards : List Shard) : CallGraph :=
  (shards.flatMap (·.functions)).foldl insert empty

def size (g : CallGraph) : Nat := g.functions.length

def function? (g : CallGraph) (id : String) : Option FunctionNode := g.functions.get? id

theorem id_of_function? {g : CallGraph} {id : String} {f : FunctionNode}
    (found : g.function? id = some f) : f.id = id :=
  g.keyed (id, f) (Dict.mem_of_get? found)

def inFile (g : CallGraph) (file : String) : List FunctionNode :=
  ((g.byFile.get? file).getD []).filterMap g.function?

def select (g : CallGraph) (p : FunctionNode → Bool) : List FunctionNode :=
  (g.functions.values.filter p).mergeSort FunctionNode.idLe

def answers (g : CallGraph) : Answers
  | .function id => g.function? id
  | .inFile file => g.inFile file
  | .named name => g.select (·.isNamed name)
  | .accessing table field => g.select (·.accesses table field)
  | .isBuilt => !g.functions.isEmpty
  | .location => "in-memory graph"

end CallGraph

end DataReach
