import DataReach.Dict
import DataReach.Distinct
import DataReach.Function
import DataReach.SortBy
/-!
What one pass over all shards gathers: for each function its callees and tables, and how far calls
lead from a function.
-/

namespace DataReach

/-- Callees and tables of a function, the tables ascending. -/
structure SurveyNode where
  callees : List String
  tables : List String
  deriving Inhabited

def ascending (xs : List String) : List String :=
  sortBy (fun a b => decide (a ≤ b)) (distinct xs)

def FunctionNode.tables (f : FunctionNode) : List String :=
  ascending (f.dataAccess.map (·.table))

def SurveyNode.ofFunction (f : FunctionNode) : SurveyNode := ⟨f.resolvedCallees, f.tables⟩

abbrev Survey := Dict String SurveyNode

namespace Survey

def ofShards (shards : List Shard) : Survey :=
  (shards.flatMap (·.functions)).foldl (fun d f => d.insert f.id (.ofFunction f)) []

def unseen (seen ids : List String) : List String :=
  distinct (ids.filter fun id => !seen.contains id)

/-- The ids of a level and of the levels of callees behind it, with their depths. Only functions
that exist have callees, so no more levels are needed than there are functions. -/
def levels (d : Survey) : (left depth : Nat) → (seen level : List String) → List (String × Nat)
  | _, _, _, [] => []
  | 0, depth, _, level => level.map (·, depth)
  | left + 1, depth, seen, level =>
    let next := unseen seen ((level.filterMap d.get?).flatMap (·.callees))
    level.map (·, depth) ++ d.levels left (depth + 1) (seen ++ next) next

def reached (d : Survey) (id : String) : List (String × Nat) :=
  (d.levels d.length 0 [id] [id]).filter fun r => d.contains r.1

structure Extent where
  functions : List String
  tables : List String
  maxDepth : Nat
  deriving DecidableEq, Repr, Inhabited

/-- What lies behind a function: other functions and tables, ascending, and the greatest depth. -/
def extent (d : Survey) (id : String) : Extent :=
  let found := d.reached id
  { functions := ascending ((found.map (·.1)).filter (· != id))
    tables := ascending ((found.filterMap fun r => d.get? r.1).flatMap (·.tables))
    maxDepth := (found.map (·.2)).foldl max 0 }

end Survey

end DataReach
