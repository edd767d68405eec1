import DataReach.Proofs.Linked
import DataReach.Proofs.Store.Recalled
import DataReach.Proofs.Store.Resolver
/-!
Resolving shards over again. Nothing that resolving changes has a say in what it changes it to: the
index is made of names, an outcome depends on the target of a call, and the callers on who calls
whom. So whatever was resolved before, the shards come to be the same, and then they stay.
-/

namespace DataReach

/-! ### What resolving leaves alone -/

def CallEdge.bare (e : CallEdge) : CallEdge := e.withOutcome none

def FunctionNode.bare (f : FunctionNode) : FunctionNode :=
  { f with calls := f.calls.map (·.bare), calledBy := [] }

def Shard.bare (s : Shard) : Shard := { s with functions := s.functions.map (·.bare) }

namespace CallEdge

variable (e : CallEdge) (file : String) (index : NameIndex)

theorem bare_resolve : (e.resolve file index).bare = e.bare := by
  rcases e.resolve_cases file index with changed | ⟨kept, -⟩
  · rw [changed]
    cases e.outcome file index <;> rfl
  · rw [kept]

theorem target_resolve : (e.resolve file index).target = e.target := by
  have same : (e.resolve file index).bare.target = e.bare.target := by rw [bare_resolve]
  exact same

theorem outcome_resolve : (e.resolve file index).outcome file index = e.outcome file index := by
  rw [outcome, outcome, target_resolve]

theorem settled_resolve :
    (e.resolve file index).resolvedOtherwise
      ((e.resolve file index).withOutcome ((e.resolve file index).outcome file index)) = false := by
  rw [outcome_resolve]
  rcases e.resolve_cases file index with changed | ⟨kept, same⟩
  · rw [changed]
    have number : ∀ how : Strategy, (how.confidence != how.confidence) = false := by
      intro how
      cases how <;> decide +kernel
    have zero : ((0.0 : Float) != 0.0) = false := by decide +kernel
    cases e.outcome file index with
    | none => simp [withOutcome, resolvedOtherwise, zero]
    | some found => simp [withOutcome, resolvedOtherwise, number]
  · rwa [kept]

end CallEdge

namespace Shard

variable {s : Shard} {index : NameIndex} {m : CallerMap}

theorem bare_resolve (s : Shard) (index : NameIndex) : (s.resolve index).bare = s.bare := by
  simp only [bare, resolve, FunctionNode.bare, FunctionNode.resolve, List.map_map,
    Function.comp_def, CallEdge.bare_resolve]

theorem bare_withCallers (s : Shard) (m : CallerMap) : (s.withCallers m).bare = s.bare := by
  simp only [bare, withCallers, FunctionNode.bare, List.map_map, Function.comp_def]

theorem bare_plain (s : Shard) : s.plain.bare = s.bare := by
  simp only [bare, plain, FunctionNode.bare, FunctionNode.plain, List.map_map, Function.comp_def]
  rfl

theorem bare_reread {read : Shard} (reread : s.reread? = some read) : read.bare = s.bare := by
  rw [← bare_plain, plain_reread reread, bare_plain]

theorem needsResolving_resolve (s : Shard) (index : NameIndex) :
    (s.resolve index).needsResolving index = false := by
  simp only [needsResolving, FunctionNode.needsResolving, List.any_eq_false]
  intro f' member
  rcases List.mem_map.mp member with ⟨f, -, rfl⟩
  simp only [List.any_eq_true, not_exists, not_and]
  intro e' call
  rcases List.mem_map.mp call with ⟨e, -, rfl⟩
  exact Bool.eq_false_iff.mp (e.settled_resolve s.file index)

theorem resolve_resolve (s : Shard) (index : NameIndex) :
    (s.resolve index).resolve index = s.resolve index :=
  resolve_of_settled (s.needsResolving_resolve index)

theorem resolve_withCallers (s : Shard) (index : NameIndex) (m : CallerMap) :
    (s.withCallers m).resolve index = (s.resolve index).withCallers m := by
  simp only [withCallers, resolve, FunctionNode.resolve, List.map_map, Function.comp_def]

theorem withCallers_withCallers (s : Shard) (m m' : CallerMap) :
    (s.withCallers m).withCallers m' = s.withCallers m' := by
  simp only [withCallers, List.map_map, Function.comp_def]

theorem needsResolving_withCallers (s : Shard) (index : NameIndex) (m : CallerMap) :
    (s.withCallers m).needsResolving index = s.needsResolving index := by
  simp only [needsResolving, withCallers, List.any_map, Function.comp_def,
    FunctionNode.needsResolving]

end Shard

theorem NameIndex.ofShards_bare (shards : List Shard) :
    ofShards (shards.map (·.bare)) = ofShards shards := by
  rw [ofShards_eq, ofShards_eq, List.flatMap_map]
  simp only [Shard.bare]
  rw [← List.map_flatMap, List.foldl_map]
  rfl

theorem CallerMap.ofShards_withCallers (shards : List Shard) (m : CallerMap) :
    ofShards (shards.map (·.withCallers m)) = ofShards shards := by
  rw [ofShards_eq, ofShards_eq, functions_withCallers, callsOf, callsOf, List.flatMap_map]

/-! ### The shards of a store -/

namespace Settling

variable {ks : List String} {m m' : String → Option Shard} {index : NameIndex}

def names (ks : List String) (m : String → Option Shard) : NameIndex := .ofShards (ks.filterMap m)

def resolved (ks : List String) (m : String → Option Shard) : String → Option Shard :=
  fun k => (m k).map (·.resolve (names ks m))

def settled (ks : List String) (m : String → Option Shard) : String → Option Shard :=
  fun k => (resolved ks m k).map (·.withCallers (.ofShards (ks.filterMap (resolved ks m))))

theorem names_congr (same : ∀ k, (m' k).map Shard.bare = (m k).map Shard.bare) :
    names ks m' = names ks m := by
  have bare : (ks.filterMap m').map Shard.bare = (ks.filterMap m).map Shard.bare := by
    rw [List.map_filterMap, List.map_filterMap]
    simp only [same]
  rw [names, ← NameIndex.ofShards_bare, bare, NameIndex.ofShards_bare, names]

def core (index : NameIndex) (s : Shard) : Shard := (s.resolve index).withCallers []

theorem bare_core (index : NameIndex) (s : Shard) : (core index s).bare = s.bare := by
  rw [core, Shard.bare_withCallers, Shard.bare_resolve]

theorem core_resolve (index : NameIndex) (s : Shard) : core index (s.resolve index) = core index s := by
  rw [core, Shard.resolve_resolve, core]

theorem core_withCallers (index : NameIndex) (s : Shard) (callers : CallerMap) :
    core index (s.withCallers callers) = core index s := by
  rw [core, Shard.resolve_withCallers, Shard.withCallers_withCallers, core]

def Alike (index : NameIndex) (m m' : String → Option Shard) : Prop :=
  ∀ k, (m k).map (core index) = (m' k).map (core index)

theorem bare_of_alike (alike : Alike index m m') (k : String) :
    (m k).map Shard.bare = (m' k).map Shard.bare := by
  have same := congrArg (Option.map Shard.bare) (alike k)
  simpa only [Option.map_map, Function.comp_def, bare_core] using same

theorem settled_eq (ks : List String) (m : String → Option Shard) (k : String) :
    settled ks m k = (m k).map fun s => (core (names ks m) s).withCallers
      (.ofShards (ks.filterMap fun k => (m k).map (core (names ks m)))) := by
  have cores : (ks.filterMap fun k => (m k).map (core (names ks m))) =
      (ks.filterMap (resolved ks m)).map (·.withCallers []) := by
    rw [List.map_filterMap]
    simp only [resolved, Option.map_map]
    rfl
  rw [cores, CallerMap.ofShards_withCallers]
  simp only [settled, resolved, Option.map_map, Function.comp_def, core,
    Shard.withCallers_withCallers]

theorem settled_congr (alike : Alike (names ks m) m' m) : settled ks m' = settled ks m := by
  have index : names ks m' = names ks m := names_congr (bare_of_alike alike)
  funext k
  rw [settled_eq, settled_eq, index]
  simp only [alike _]
  have mapped := congrArg (Option.map (·.withCallers
    (.ofShards (ks.filterMap fun k => (m k).map (core (names ks m)))))) (alike k)
  simpa only [Option.map_map, Function.comp_def] using mapped

def Between (ks : List String) (m m' : String → Option Shard) : Prop :=
  ∀ k, m' k = m k ∨ m' k = resolved ks m k ∨ m' k = settled ks m k

theorem alike_of_between (between : Between ks m m') : Alike (names ks m) m' m := by
  intro k
  rcases between k with same | same | same
  · rw [same]
  · rw [same, resolved]
    simp only [Option.map_map, Function.comp_def, core_resolve]
  · rw [same, settled, resolved]
    simp only [Option.map_map, Function.comp_def, core_withCallers, core_resolve]

theorem ne_none_of_between (between : Between ks m m') (k : String) :
    m' k ≠ none ↔ m k ≠ none := by
  rcases between k with same | same | same
  · rw [same]
  · simp [same, resolved]
  · simp [same, settled, resolved]

theorem between_settled (ks : List String) (m : String → Option Shard) :
    Between ks m (settled ks m) :=
  fun _ => .inr (.inr rfl)

theorem names_settled (ks : List String) (m : String → Option Shard) :
    names ks (settled ks m) = names ks m :=
  names_congr (bare_of_alike (alike_of_between (between_settled ks m)))

/-- No call in the shards of a map is to be resolved otherwise. -/
def Resting (ks : List String) (m : String → Option Shard) : Prop :=
  ∀ k shard, m k = some shard → shard.needsResolving (names ks m) = false

theorem resting_settled (ks : List String) (m : String → Option Shard) :
    Resting ks (settled ks m) := by
  intro k shard found
  rcases Option.map_eq_some_iff.mp found with ⟨between, there, rfl⟩
  rcases Option.map_eq_some_iff.mp there with ⟨before, -, rfl⟩
  rw [names_settled, Shard.needsResolving_withCallers, Shard.needsResolving_resolve]

theorem resolved_settled (ks : List String) (m : String → Option Shard) :
    resolved ks (settled ks m) = settled ks m := by
  funext k
  rw [resolved]
  cases found : settled ks m k with
  | none => rfl
  | some shard =>
    rw [Option.map_some, Shard.resolve_of_settled (resting_settled ks m k shard found)]

theorem settled_settled (ks : List String) (m : String → Option Shard) :
    settled ks (settled ks m) = settled ks m :=
  settled_congr (alike_of_between (between_settled ks m))

theorem eq_of_between_settled (between : Between ks (settled ks m) m') : m' = settled ks m := by
  funext k
  rcases between k with same | same | same
  · exact same
  · rw [same, resolved_settled]
  · rw [same, settled_settled]

end Settling

end DataReach
