import DataReach.Dict
import DataReach.Inquiry
import DataReach.Reach.Path
/-!
The functions that lead to given ones, breadth first along their callers. Each one found keeps a
link to the function it was found from, so that its way back can be read off.
-/

namespace DataReach

abbrev Links := Dict String (PathNode × Option String)

namespace Links

def ofSeeds (seeds : List FunctionNode) : Links :=
  seeds.foldl (fun links f => links.insert f.id (.ofFunction f, none)) []

def unwindFrom (links : Links) : Nat → String → List PathNode
  | 0, _ => []
  | steps + 1, id =>
    match links.get? id with
    | none => []
    | some (node, none) => [node]
    | some (node, some next) => node :: links.unwindFrom steps next

def unwind (links : Links) (id : String) : List PathNode :=
  links.unwindFrom links.length id

end Links

structure Climb where
  links : Links
  /-- Each function found, with its depth, in the order of the search. -/
  found : List (FunctionNode × Nat)

namespace Backward

def callers (f : FunctionNode) : Links → List CallerRef → Inquiry (Links × List FunctionNode)
  | links, [] => return (links, [])
  | links, c :: rest =>
    if links.contains c.callerId then callers f links rest
    else do
      match ← Inquiry.function c.callerId with
      | none => callers f links rest
      | some g =>
        let (links, others) ← callers f (links.insert c.callerId (.ofFunction g, some f.id)) rest
        return (links, g :: others)

/-- The callers of a whole level; the search does not go on behind functions that `stop`. -/
def callersOfAll (stop : FunctionNode → Bool) :
    Links → List FunctionNode → Inquiry (Links × List FunctionNode)
  | links, [] => return (links, [])
  | links, f :: rest =>
    if stop f then callersOfAll stop links rest
    else do
      let (links, found) ← callers f links f.calledBy
      let (links, others) ← callersOfAll stop links rest
      return (links, found ++ others)

def levels (stop : FunctionNode → Bool) :
    (left depth : Nat) → Links → List FunctionNode → Inquiry Climb
  | _, _, links, [] => return ⟨links, []⟩
  | 0, depth, links, level => return ⟨links, level.map (·, depth)⟩
  | left + 1, depth, links, level => do
    let (links, next) ← callersOfAll stop links level
    let rest ← levels stop left (depth + 1) links next
    return ⟨rest.links, level.map (·, depth) ++ rest.found⟩

def climb (stop : FunctionNode → Bool) (seeds : List FunctionNode) (maxDepth : Option Nat) :
    Inquiry Climb :=
  levels stop (maxDepth.getD depthLimit) 0 (.ofSeeds seeds) seeds

end Backward

end DataReach
