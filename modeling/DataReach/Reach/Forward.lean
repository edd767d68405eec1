import DataReach.Inquiry
import DataReach.Reach.Path
/-!
The functions that a function reaches through resolved calls, breadth first. Each is visited once,
at its least depth, by the path found first.
-/

namespace DataReach

structure Visit where
  node : FunctionNode
  /-- From the origin to the function itself. -/
  path : List PathNode
  depth : Nat
  deriving Inhabited

namespace Visit

def origin (f : FunctionNode) : Visit := ⟨f, [.ofFunction f], 0⟩

def calls (v : Visit) : List (String × List PathNode) :=
  v.node.resolvedCallees.map (·, v.path)

end Visit

namespace Forward

def firstNew (seen : List String) : List (String × α) → List (String × α)
  | [] => []
  | (id, a) :: rest =>
    if seen.contains id then firstNew seen rest
    else (id, a) :: firstNew (id :: seen) rest

def follow (depth : Nat) : List (String × List PathNode) → Inquiry (List Visit)
  | [] => return []
  | (id, path) :: rest => do
    let found ← Inquiry.function id
    let others ← follow depth rest
    return match found with
      | some f => ⟨f, path ++ [.ofFunction f], depth⟩ :: others
      | none => others

/-- The visits of a level and of at most `left` levels behind it. An id counts as seen even when
there is no function of that id. -/
def levels : (left depth : Nat) → (seen : List String) → List Visit → Inquiry (List Visit)
  | _, _, _, [] => return []
  | 0, _, _, level => return level
  | left + 1, depth, seen, level => do
    let pending := firstNew seen (level.flatMap Visit.calls)
    let next ← follow (depth + 1) pending
    let rest ← levels left (depth + 1) (seen ++ pending.map (·.1)) next
    return level ++ rest

def visits (origin : FunctionNode) (maxDepth : Option Nat) : Inquiry (List Visit) :=
  levels (maxDepth.getD depthLimit) 0 [origin.id] [.origin origin]

end Forward

end DataReach
