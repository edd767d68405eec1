import DataReach.Proofs.Callers
import DataReach.Proofs.Resolution
/-!
Functions that are linked with each other. Resolving shards against the index of their own functions
grounds the calls, and giving the functions the callers of the calls so resolved links them.
-/

namespace DataReach

/-- A call counts as resolved just when it has a target, which is one of the functions. -/
structure Grounded (functions : List FunctionNode) : Prop where
  settled : ∀ f ∈ functions, ∀ e ∈ f.calls, (e.resolved = true ↔ e.resolvedId ≠ none)
  inside : ∀ f ∈ functions, ∀ e ∈ f.calls, ∀ id, e.resolvedId = some id → ∃ g ∈ functions, g.id = id

/-- Besides, every function has all its callers, each once and with its first line. -/
structure Linked (functions : List FunctionNode) : Prop extends Grounded functions where
  ascending : ∀ g ∈ functions, g.calledBy.Pairwise fun a b => a.callerId < b.callerId
  called : ∀ g ∈ functions, ∀ r : CallerRef, r ∈ g.calledBy ↔
    Calls functions r.callerId g.id r.line ∧
      ∀ line, Calls functions r.callerId g.id line → r.line ≤ line

section Resolving

variable {shards : List Shard} {index : NameIndex} {f' : FunctionNode}

theorem mem_functions_resolve :
    f' ∈ (shards.map (·.resolve index)).flatMap (·.functions) ↔
      ∃ s ∈ shards, ∃ f ∈ s.functions, f.resolve s.file index = f' := by
  simp only [List.mem_flatMap, List.mem_map]
  constructor
  · intro given
    rcases given with ⟨_, ⟨s, member, rfl⟩, inside⟩
    rcases List.mem_map.mp inside with ⟨f, own, same⟩
    exact ⟨s, member, f, own, same⟩
  · intro given
    rcases given with ⟨s, member, f, own, same⟩
    exact ⟨s.resolve index, ⟨s, member, rfl⟩, List.mem_map.mpr ⟨f, own, same⟩⟩

theorem outcome_inside {e : CallEdge} {file : String} {c : Candidate} {how : Strategy}
    (found : e.outcome file (.ofShards shards) = some (c, how)) :
    ∃ g ∈ (shards.map (·.resolve index)).flatMap (·.functions), g.id = c.id := by
  have candidate := mem_of_resolveTarget found
  rcases NameIndex.mem_candidates candidate with ⟨g, member, rfl⟩
  rcases List.mem_flatMap.mp member with ⟨s, shard, own⟩
  exact ⟨g.resolve s.file index, mem_functions_resolve.mpr ⟨s, shard, g, own, rfl⟩, rfl⟩

theorem grounded_resolve (shards : List Shard) :
    Grounded ((shards.map (·.resolve (.ofShards shards))).flatMap (·.functions)) := by
  constructor
  · intro f' member e' call
    rcases mem_functions_resolve.mp member with ⟨s, -, f, -, rfl⟩
    rcases List.mem_map.mp call with ⟨e, -, rfl⟩
    rcases e.resolve_outcome s.file (.ofShards shards) with ⟨resolved, id⟩
    rw [resolved, id, Option.isSome_iff_ne_none]
    simp
  · intro f' member e' call id target
    rcases mem_functions_resolve.mp member with ⟨s, -, f, -, rfl⟩
    rcases List.mem_map.mp call with ⟨e, -, rfl⟩
    rw [(e.resolve_outcome s.file (.ofShards shards)).2] at target
    rcases Option.map_eq_some_iff.mp target with ⟨⟨c, how⟩, found, rfl⟩
    exact outcome_inside found

end Resolving

section Callers

variable {functions : List FunctionNode}

theorem functions_withCallers (shards : List Shard) (m : CallerMap) :
    (shards.map (·.withCallers m)).flatMap (·.functions) =
      (shards.flatMap (·.functions)).map fun f => { f with calledBy := m.refs f.id } := by
  rw [List.flatMap_map, List.map_flatMap]
  rfl

theorem calls_map (callers : FunctionNode → List CallerRef) (caller callee : String)
    (line : UInt32) :
    Calls (functions.map fun f => { f with calledBy := callers f }) caller callee line ↔
      Calls functions caller callee line := by
  simp [Calls]

theorem grounded_map (callers : FunctionNode → List CallerRef) (grounded : Grounded functions) :
    Grounded (functions.map fun f => { f with calledBy := callers f }) := by
  constructor
  · intro f' member e call
    rcases List.mem_map.mp member with ⟨f, own, rfl⟩
    exact grounded.settled f own e call
  · intro f' member e call id target
    rcases List.mem_map.mp member with ⟨f, own, rfl⟩
    rcases grounded.inside f own e call id target with ⟨g, there, same⟩
    exact ⟨_, List.mem_map_of_mem there, same⟩

theorem called_withCallers (shards : List Shard) {g : FunctionNode}
    (member : g ∈ (shards.map (·.withCallers (.ofShards shards))).flatMap (·.functions))
    (r : CallerRef) :
    r ∈ g.calledBy ↔ Calls (shards.flatMap (·.functions)) r.callerId g.id r.line ∧
      ∀ line, Calls (shards.flatMap (·.functions)) r.callerId g.id line → r.line ≤ line := by
  rw [functions_withCallers, CallerMap.ofShards_eq] at member
  obtain ⟨f, -, rfl⟩ := List.mem_map.mp member
  rw [CallerMap.mem_refs (CallerMap.distinct_foldl _), CallerMap.line?_iff]
  simp only [mem_callsOf]

theorem linked_withCallers {shards : List Shard}
    (grounded : Grounded (shards.flatMap (·.functions))) :
    Linked ((shards.map (·.withCallers (.ofShards shards))).flatMap (·.functions)) := by
  refine ⟨?_, ?_, ?_⟩
  · rw [functions_withCallers]
    exact grounded_map _ grounded
  · intro g member
    rw [functions_withCallers, CallerMap.ofShards_eq] at member
    obtain ⟨f, -, rfl⟩ := List.mem_map.mp member
    exact CallerMap.refs_ascending (CallerMap.distinct_foldl _) f.id
  · intro g member r
    rw [called_withCallers shards member, functions_withCallers]
    simp only [calls_map]

end Callers

def linkAll (shards : List Shard) : List Shard :=
  let resolved := shards.map (·.resolve (.ofShards shards))
  resolved.map (·.withCallers (.ofShards resolved))

theorem linked_linkAll (shards : List Shard) : Linked ((linkAll shards).flatMap (·.functions)) :=
  linked_withCallers (grounded_resolve shards)

theorem keys_linkAll (shards : List Shard) : (linkAll shards).map (·.key) = shards.map (·.key) := by
  rw [linkAll, List.map_map, List.map_map]
  rfl

end DataReach
