import DataReach.Callers
import DataReach.Resolution
import DataReach.Store
/-!
Resolving the calls of all shards in a store. The functions of all shards are indexed by name;
then the shards are resolved and written back batch by batch, and last every function gets its
callers. A run can be cancelled between batches only.
-/

namespace DataReach

/-- How often a run may still go on when it asks; `none` is for ever. -/
abbrev Patience := Option Nat

/-- The patience left after asking once, or `none` if the run is to end. -/
def Patience.ask? : Patience → Option Patience
  | none => some none
  | some 0 => none
  | some (n + 1) => some (some n)

/-- A pass over all shards that writes some of them anew. -/
structure Pass (α : Type) where
  visit : α → Shard → α
  /-- The shard to write, if it is to change. -/
  change : Shard → Option Shard
  saved : α → α
  batchDone : α → α

namespace Pass

/-- Visits one shard; a shard that cannot be written is noted and passed over. -/
def step (p : Pass α) (key : String) (r : Outcome α) : StateM Store (Outcome α) := do
  match ← Store.load key with
  | none => return r
  | some shard =>
    let r := { r with data := p.visit r.data shard }
    match p.change shard with
    | none => return r
    | some shard =>
      match ← Store.save shard with
      | .ok _ => return { r with data := p.saved r.data }
      | .error e => return r.add (.graph (.storage e))

def steps (p : Pass α) : List String → Outcome α → StateM Store (Outcome α)
  | [], r => return r
  | key :: rest, r => do p.steps rest (← p.step key r)

def batch (p : Pass α) (keys : List String) (r : Outcome α) : StateM Store (Outcome α) := do
  let r ← p.steps keys r
  Store.evictEach keys
  return { r with data := p.batchDone r.data }

def batches (p : Pass α) : (done : Nat) → Patience → List (List String) → Outcome α →
    StateM Store (Except GraphError (Outcome α × Patience))
  | _, patience, [], r => return .ok (r, patience)
  | done, patience, keys :: rest, r => do
    let r ← p.batch keys r
    match patience.ask? with
    | none => return .error (.cancelled (done + 1))
    | some patience => p.batches (done + 1) patience rest r

def run (p : Pass α) (batchSize : Nat) (patience : Patience) (start : α) :
    StateM Store (Except GraphError (Outcome α × Patience)) := do
  match (← get).keys with
  | .error e => return .error (.storage e)
  | .ok keys => p.batches 0 patience (chunks batchSize keys) (.clean start)

def resolving (index : NameIndex) : Pass Diagnostics where
  visit d s := s.diagnose index d
  change s := if s.needsResolving index then some (s.resolve index) else none
  saved d := { d with shardsChanged := d.shardsChanged + 1 }
  batchDone d := { d with batches := d.batches + 1 }

def givingCallers (m : CallerMap) : Pass Nat where
  visit n _ := n
  change s := if s.needsCallers m then some (s.withCallers m) else none
  saved n := n + 1
  batchDone n := n

end Pass

namespace Store

def nameIndex : StateM Store (Except GraphError NameIndex) := do
  match ← sweep with
  | .error e => return .error (.storage e)
  | .ok shards => return .ok (.ofShards shards)

def resolveWith (index : NameIndex) (batchSize : Nat) (patience : Patience) :
    StateM Store (Except GraphError (Outcome Diagnostics × Patience)) :=
  (Pass.resolving index).run batchSize patience {}

def resolveEdges (batchSize : Nat) (patience : Patience) :
    StateM Store (Except GraphError (Outcome Diagnostics × Patience)) := do
  match ← nameIndex with
  | .error e => return .error e
  | .ok index => resolveWith index batchSize patience

def materializeCallers (batchSize : Nat) (patience : Patience) :
    StateM Store (Except GraphError (Outcome Nat × Patience)) := do
  match ← sweep with
  | .error e => return .error (.storage e)
  | .ok shards => (Pass.givingCallers (.ofShards shards)).run batchSize patience 0

def resolve (batchSize : Nat) (patience : Patience) :
    StateM Store (Except GraphError (Outcome Diagnostics)) := do
  match ← resolveEdges batchSize patience with
  | .error e => return .error e
  | .ok (r, patience) =>
    match ← materializeCallers batchSize patience with
    | .error e => return .error e
    | .ok (callers, _) => return .ok { r with errors := r.errors ++ callers.errors }

end Store

end DataReach
