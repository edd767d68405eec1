import DataReach.Dict
import DataReach.Function
import DataReach.Text.Segment
/-!
Functions by simple and by qualified name. The candidates under a name are ordered by file, line and
id, each once.
-/

namespace DataReach

structure Candidate where
  id : String
  file : String
  startLine : UInt32
  deriving DecidableEq, Repr, Inhabited

namespace Candidate

def ofFunction (f : FunctionNode) : Candidate := ⟨f.id, f.file, f.startLine⟩

def before (a b : Candidate) : Bool :=
  a.file < b.file || (a.file == b.file &&
    (a.startLine < b.startLine || (a.startLine == b.startLine && a.id < b.id)))

def insert (c : Candidate) : List Candidate → List Candidate
  | [] => [c]
  | d :: rest =>
    if c.before d then c :: d :: rest
    else if d.before c then d :: insert c rest
    else d :: rest

end Candidate

structure NameIndex where
  byName : Dict String (List Candidate)
  byQualified : Dict String (List Candidate)
  functionCount : Nat
  deriving Inhabited

namespace NameIndex

def empty : NameIndex := ⟨[], [], 0⟩

def file (d : Dict String (List Candidate)) (name : String) (c : Candidate) :
    Dict String (List Candidate) :=
  d.alter name fun found => c.insert (found.getD [])

def addFunction (n : NameIndex) (f : FunctionNode) : NameIndex where
  byName := file n.byName f.name (.ofFunction f)
  byQualified := file n.byQualified f.qualifiedName (.ofFunction f)
  functionCount := n.functionCount + 1

def addShard (n : NameIndex) (s : Shard) : NameIndex :=
  s.functions.foldl addFunction n

def ofShards (shards : List Shard) : NameIndex :=
  shards.foldl addShard empty

/-- The functions a call target can mean: those of its qualified name if it has a separator and
there are any, else those of its last segment. -/
def candidates (n : NameIndex) (target : String) : List Candidate :=
  let simple := Text.lastSegment target
  let byName := (n.byName.get? simple).getD []
  if simple == target then byName
  else (n.byQualified.get? (Text.dotted target)).getD byName

def distinctNames (n : NameIndex) : Nat := n.byName.length

end NameIndex

end DataReach
