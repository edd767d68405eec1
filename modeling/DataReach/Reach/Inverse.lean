import DataReach.Distinct
import DataReach.Reach.Backward
/-!
The entry points from which data is reached. Each branch of the search ends at the first entry
point; every entry point keeps its shortest path, and of equally short ones the one to the
accessor that comes first.
-/

namespace DataReach

structure InversePath where
  entryPoint : String
  /-- From the entry point to the accessor. -/
  path : List PathNode
  accessorId : String
  access : DataAccess
  deriving DecidableEq, Repr, Inhabited

structure InverseReach where
  table : String
  field : Option String
  totalAccessors : UInt32 := 0
  /-- One for each entry point, in ascending order. -/
  paths : List InversePath := []
  functionsTraversed : UInt32 := 0
  graphMissing : Option GraphError := none
  deriving Inhabited

/-- What has been found so far: the best path of each entry point, and every function met. -/
structure InverseProgress where
  best : Dict String InversePath := []
  met : List String := []

namespace InverseProgress

def offer (best : Dict String InversePath) (p : InversePath) : Dict String InversePath :=
  match best.get? p.entryPoint with
  | some q => if p.path.length < q.path.length then best.insert p.entryPoint p else best
  | none => best.insert p.entryPoint p

def add (progress : InverseProgress) (accessor : FunctionNode) (access : DataAccess) (c : Climb) :
    InverseProgress :=
  let entries := c.found.filter (·.1.isEntryPoint)
  { best := (entries.map fun e => ⟨e.1.id, c.links.unwind e.1.id, accessor.id, access⟩).foldl offer
      progress.best
    met := distinct (progress.met ++ c.found.map (·.1.id)) }

end InverseProgress

namespace InverseReach

def searches (table : String) (field : Option String) (maxDepth : Option Nat) :
    InverseProgress → List FunctionNode → Inquiry InverseProgress
  | progress, [] => return progress
  | progress, f :: rest =>
    match f.dataAccess.find? (·.matches table field) with
    | none => searches table field maxDepth progress rest
    | some access => do
      let c ← Backward.climb (·.isEntryPoint) [f] maxDepth
      searches table field maxDepth (progress.add f access c) rest

def toData (table : String) (field : Option String) (maxDepth : Option Nat) :
    Inquiry InverseReach := do
  match ← Inquiry.missing? with
  | some e => return { table, field, graphMissing := some e }
  | none =>
    let accessors ← Inquiry.accessing table field
    let progress ← searches table field maxDepth {} accessors
    return {
      table, field
      totalAccessors := .ofNat accessors.length
      paths := progress.best.values.mergeSort fun a b => decide (a.entryPoint ≤ b.entryPoint)
      functionsTraversed := .ofNat progress.met.length }

def entryPoints (r : InverseReach) : List String := r.paths.map (·.entryPoint)

end InverseReach

end DataReach
