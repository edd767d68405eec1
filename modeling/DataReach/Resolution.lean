import DataReach.NameIndex
/-! Resolving call targets to functions, with a confidence that depends on how they were found. -/

namespace DataReach

inductive Strategy where
  | sameFileUnique
  | globalUnique
  | sameFileAmbiguous
  | crossFileAmbiguous
  deriving DecidableEq, Repr, Inhabited

namespace Strategy

def all : List Strategy :=
  [.sameFileUnique, .globalUnique, .sameFileAmbiguous, .crossFileAmbiguous]

def name : Strategy → String
  | .sameFileUnique => "same_file_unique"
  | .globalUnique => "global_unique"
  | .sameFileAmbiguous => "same_file_ambiguous"
  | .crossFileAmbiguous => "cross_file_ambiguous"

def confidence : Strategy → Float
  | .sameFileUnique => 0.95
  | .globalUnique => 0.80
  | .sameFileAmbiguous => 0.70
  | .crossFileAmbiguous => 0.40

end Strategy

/-- A single candidate is taken wherever it is; of several, the first in the caller's own file, or
else the first. -/
def resolveTarget (callerFile : String) : List Candidate → Option (Candidate × Strategy)
  | [] => none
  | [only] =>
    some (only, if only.file == callerFile then .sameFileUnique else .globalUnique)
  | first :: rest =>
    match (first :: rest).find? (·.file == callerFile) with
    | some c => some (c, .sameFileAmbiguous)
    | none => some (first, .crossFileAmbiguous)

structure Diagnostics where
  totalCallSites : Nat := 0
  resolved : Nat := 0
  unresolved : Nat := 0
  byStrategy : Dict String Nat := []
  batches : Nat := 0
  shardsChanged : Nat := 0
  deriving Inhabited

namespace Diagnostics

def record (d : Diagnostics) (outcome : Option Strategy) : Diagnostics :=
  match outcome with
  | some s => { d with
      totalCallSites := d.totalCallSites + 1
      resolved := d.resolved + 1
      byStrategy := d.byStrategy.alter s.name fun n => n.getD 0 + 1 }
  | none => { d with totalCallSites := d.totalCallSites + 1, unresolved := d.unresolved + 1 }

def resolutionRate (d : Diagnostics) : Float :=
  if d.totalCallSites = 0 then 0.0 else d.resolved.toFloat / d.totalCallSites.toFloat

end Diagnostics

namespace CallEdge

def withOutcome (e : CallEdge) : Option (Candidate × Strategy) → CallEdge
  | some (c, s) => { e with resolved := true, resolvedId := some c.id, confidence := s.confidence }
  | none => { e with resolved := false, resolvedId := none, confidence := 0.0 }

def resolvedOtherwise (a b : CallEdge) : Bool :=
  a.resolved != b.resolved || a.resolvedId != b.resolvedId || a.confidence != b.confidence

def outcome (e : CallEdge) (callerFile : String) (index : NameIndex) :
    Option (Candidate × Strategy) :=
  resolveTarget callerFile (index.candidates e.target)

def resolve (e : CallEdge) (callerFile : String) (index : NameIndex) : CallEdge :=
  let e' := e.withOutcome (e.outcome callerFile index)
  if e.resolvedOtherwise e' then e' else e

end CallEdge

namespace FunctionNode

def resolve (f : FunctionNode) (callerFile : String) (index : NameIndex) : FunctionNode :=
  { f with calls := f.calls.map (·.resolve callerFile index) }

def needsResolving (f : FunctionNode) (callerFile : String) (index : NameIndex) : Bool :=
  f.calls.any fun e => e.resolvedOtherwise (e.withOutcome (e.outcome callerFile index))

end FunctionNode

namespace Shard

/-- Resolves every edge afresh, whatever it was resolved to before. -/
def resolve (s : Shard) (index : NameIndex) : Shard :=
  { s with functions := s.functions.map (·.resolve s.file index) }

def needsResolving (s : Shard) (index : NameIndex) : Bool :=
  s.functions.any (·.needsResolving s.file index)

def diagnose (s : Shard) (index : NameIndex) (d : Diagnostics) : Diagnostics :=
  (s.functions.flatMap (·.calls)).foldl
    (fun d e => d.record ((e.outcome s.file index).map (·.2))) d

end Shard

end DataReach
