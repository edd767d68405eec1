import DataReach.Proofs.Plain
import DataReach.Proofs.Sorting
import DataReach.Proofs.Store.Derived
import DataReach.Proofs.Store.Tally
import DataReach.Proofs.Totals
import DataReach.Store.Queries
/-!
What is counted in shards. The statistics, the index with its files and the list of entry points
count on their own, and the diagnostics count while calls are resolved; all come to the same
numbers. None of them depends on how sure a call is.
-/

namespace DataReach

/-! ### Calls of a shard -/

namespace Shard

theorem resolvedCallCount_le (s : Shard) : s.resolvedCallCount ≤ s.callCount := by
  apply total_le
  intro f
  exact List.length_filter_le _ f.calls

theorem callCount_eq (s : Shard) : s.callCount = (s.functions.flatMap (·.calls)).length := by
  rw [callCount, total_eq_sum, List.length_flatMap]

theorem resolvedCallCount_eq (s : Shard) :
    s.resolvedCallCount = (s.functions.flatMap (·.calls)).countP (·.resolved) := by
  rw [resolvedCallCount, total_eq_sum, List.countP_flatMap]
  simp only [List.countP_eq_length_filter, Function.comp_def]

end Shard

/-! ### Statistics, index and entry points -/

theorem StoreStats.ofShards_eq (shards : List Shard) : ofShards shards = {
    files := shards.length
    functions := total (·.functions.length) shards
    calls := total (·.callCount) shards
    resolvedCalls := total (·.resolvedCallCount) shards
    entryPoints := total (·.functions.countP (·.isEntryPoint)) shards
    dataAccessors := total (·.functions.countP (·.isDataAccessor)) shards } := by
  rw [ofShards]
  induction shards using List.reverseRecOn with
  | nil => rfl
  | append_singleton front s ih =>
    rw [List.foldl_append, ih]
    simp [add, total_eq_sum]

theorem Totals.foldl_add (functions : List FunctionNode) : functions.foldl add {} = {
    functions := functions.length
    calls := total (·.calls.length) functions
    resolvedCalls := total (fun f => (f.calls.filter (·.resolved)).length) functions } := by
  induction functions using List.reverseRecOn with
  | nil => rfl
  | append_singleton front f ih =>
    rw [List.foldl_append, ih]
    simp [add, total_eq_sum]

namespace IndexSummary

variable (shards : List Shard) (entries : List EntryPoint)

theorem totalFunctions_ofShards :
    (ofShards shards entries).totalFunctions = total (·.functions.length) shards := by
  rw [total_eq_sum, ← List.length_flatMap, ofShards, Totals.foldl_add]

theorem totalCalls_ofShards :
    (ofShards shards entries).totalCalls = total (·.callCount) shards := by
  rw [ofShards, Totals.foldl_add]
  exact total_flatMap ..

theorem resolvedCalls_ofShards :
    (ofShards shards entries).resolvedCalls = total (·.resolvedCallCount) shards := by
  rw [ofShards, Totals.foldl_add]
  exact total_flatMap ..

theorem entryPoints_ofShards : (ofShards shards entries).entryPoints =
    total (·.functions.countP (·.isEntryPoint)) shards := by
  rw [total_eq_sum]
  exact List.countP_eq_length_filter.symm.trans List.countP_flatMap

theorem dataAccessors_ofShards : (ofShards shards entries).dataAccessors =
    total (·.functions.countP (·.isDataAccessor)) shards := by
  rw [total_eq_sum]
  exact List.countP_eq_length_filter.symm.trans List.countP_flatMap

end IndexSummary

/-- The statistics, an index and a list of entry points say the same numbers. The calls that are not
resolved are a difference of numbers; it is a true one. -/
structure Consistent (c : StoreStats) (i : GraphIndex) (list : EntryPointList) : Prop where
  files : c.files = i.summary.totalFiles
  functions : c.functions = i.summary.totalFunctions
  calls : c.calls = i.summary.totalCalls
  resolvedCalls : c.resolvedCalls = i.summary.resolvedCalls
  entryPoints : c.entryPoints = i.summary.entryPoints
  dataAccessors : c.dataAccessors = i.summary.dataAccessors
  sumOfFiles : i.summary.totalFiles = i.files.length
  sumOfFunctions : i.summary.totalFunctions = total (·.functions) i.files
  sumOfEntryPoints : i.summary.entryPoints = total (·.entryPoints) i.files
  sumOfAccessors : i.summary.dataAccessors = total (·.dataAccessors) i.files
  rest : i.summary.unresolvedCalls + i.summary.resolvedCalls = i.summary.totalCalls
  listed : list.entryPoints.length = i.summary.entryPoints

open Store

theorem total_files (count : IndexedFile → Nat) (topN : Nat) (shards : List Shard) :
    total count (indexOf topN shards).files = total (fun s => count (.ofShard s)) shards := by
  rw [indexOf, GraphIndex.ofShards, sortBy_eq, total_perm (List.mergeSort_perm _ _), total_map]

theorem consistent_ofShards (topN : Nat) (shards : List Shard) :
    Consistent (.ofShards shards) (indexOf topN shards) (entryPointsOf shards) := by
  rw [StoreStats.ofShards_eq]
  exact {
    files := rfl
    functions := (IndexSummary.totalFunctions_ofShards shards _).symm
    calls := (IndexSummary.totalCalls_ofShards shards _).symm
    resolvedCalls := (IndexSummary.resolvedCalls_ofShards shards _).symm
    entryPoints := (IndexSummary.entryPoints_ofShards shards _).symm
    dataAccessors := (IndexSummary.dataAccessors_ofShards shards _).symm
    sumOfFiles := by simp [indexOf, GraphIndex.ofShards, IndexSummary.ofShards]
    sumOfFunctions := by
      rw [total_files]
      exact IndexSummary.totalFunctions_ofShards ..
    sumOfEntryPoints := by
      rw [total_files]
      exact IndexSummary.entryPoints_ofShards ..
    sumOfAccessors := by
      rw [total_files]
      exact IndexSummary.dataAccessors_ofShards ..
    rest := by
      have within := total_le Shard.resolvedCallCount_le shards
      rw [← IndexSummary.resolvedCalls_ofShards shards (EntryPoint.ofShards shards),
        ← IndexSummary.totalCalls_ofShards shards (EntryPoint.ofShards shards)] at within
      exact Nat.sub_add_cancel within
    listed := by
      rw [entryPointsOf, EntryPoint.ofShards, sortBy_eq, List.length_mergeSort, List.length_map]
      rfl }

/-! ### Without confidences -/

theorem functions_plain (shards : List Shard) :
    (shards.map Shard.plain).flatMap (·.functions) =
      (shards.flatMap (·.functions)).map FunctionNode.plain := by
  rw [List.flatMap_map, List.map_flatMap]
  rfl

@[simp] theorem Shard.callCount_plain (s : Shard) : s.plain.callCount = s.callCount := by
  simp [callCount, total_eq_sum, Function.comp_def]

@[simp] theorem Shard.resolvedCallCount_plain (s : Shard) :
    s.plain.resolvedCallCount = s.resolvedCallCount := by
  simp [resolvedCallCount, total_eq_sum, Function.comp_def, List.filter_map]
  rfl

theorem StoreStats.add_plain (c : StoreStats) (s : Shard) : c.add s.plain = c.add s := by
  simp [add, List.countP_map, Function.comp_def]

theorem StoreStats.ofShards_plain (shards : List Shard) :
    ofShards (shards.map Shard.plain) = ofShards shards := by
  simp only [ofShards, List.foldl_map, add_plain]

theorem Totals.add_plain (t : Totals) (f : FunctionNode) : t.add f.plain = t.add f := by
  simp [add, List.filter_map, Function.comp_def, CallEdge.plain]

theorem SurveyNode.ofFunction_plain (f : FunctionNode) : ofFunction f.plain = ofFunction f := by
  simp [ofFunction, FunctionNode.tables]

theorem Survey.ofShards_plain (shards : List Shard) :
    ofShards (shards.map Shard.plain) = ofShards shards := by
  simp only [ofShards, functions_plain, List.foldl_map, SurveyNode.ofFunction_plain,
    FunctionNode.plain_id]

theorem EntryPoint.ofShards_plain (shards : List Shard) :
    ofShards (shards.map Shard.plain) = ofShards shards := by
  rw [ofShards, functions_plain, Survey.ofShards_plain, List.filter_map, List.map_map]
  rfl

theorem IndexedFile.ofShard_plain (s : Shard) : ofShard s.plain = ofShard s := by
  simp [ofShard, Function.comp_def]
  rfl

theorem Store.entryPointsOf_plain (shards : List Shard) :
    entryPointsOf (shards.map Shard.plain) = entryPointsOf shards := by
  rw [entryPointsOf, EntryPoint.ofShards_plain, entryPointsOf]

theorem Store.indexOf_plain (topN : Nat) (shards : List Shard) :
    indexOf topN (shards.map Shard.plain) = indexOf topN shards := by
  have files : (shards.map Shard.plain).map IndexedFile.ofShard =
      shards.map IndexedFile.ofShard := by
    rw [List.map_map]
    exact List.map_congr_left fun s _ => IndexedFile.ofShard_plain s
  have accessors : (((shards.map Shard.plain).flatMap (·.functions)).filter
      (·.isDataAccessor)).map IndexedAccessor.ofFunction =
        ((shards.flatMap (·.functions)).filter (·.isDataAccessor)).map
          IndexedAccessor.ofFunction := by
    rw [functions_plain, List.filter_map, List.map_map]
    rfl
  have summary : IndexSummary.ofShards (shards.map Shard.plain) (EntryPoint.ofShards shards) =
      IndexSummary.ofShards shards (EntryPoint.ofShards shards) := by
    simp [IndexSummary.ofShards, functions_plain, List.foldl_map, Totals.add_plain,
      List.filter_map, Function.comp_def]
  rw [indexOf, EntryPoint.ofShards_plain, GraphIndex.ofShards, files, accessors, summary]
  rfl

/-! ### Resolving -/

theorem total_alter (d : Dict String Nat) (key : String) :
    total (·.2) (d.alter key fun n => n.getD 0 + 1) = total (·.2) d + 1 := by
  induction d with
  | nil => rfl
  | cons entry rest ih =>
    obtain ⟨first, n⟩ := entry
    rw [Dict.alter]
    split
    · simp only [total, Option.getD_some]
      omega
    · simp only [total, ih]
      omega

/-- Diagnostics of so many calls, so many of which are resolved. -/
structure Diagnostics.Counts (d : Diagnostics) (calls resolved : Nat) : Prop where
  sites : d.totalCallSites = calls
  resolved : d.resolved = resolved
  rest : d.unresolved + d.resolved = d.totalCallSites
  strategies : total (·.2) d.byStrategy = d.resolved

section Counts

variable {d : Diagnostics} {calls resolved : Nat}

theorem Diagnostics.counts_unbatched :
    d.unbatched.Counts calls resolved ↔ d.Counts calls resolved :=
  ⟨fun ⟨sites, own, rest, strategies⟩ => ⟨sites, own, rest, strategies⟩,
    fun ⟨sites, own, rest, strategies⟩ => ⟨sites, own, rest, strategies⟩⟩

theorem Diagnostics.counts_record (counts : d.Counts calls resolved) (outcome : Option Strategy) :
    (d.record outcome).Counts (calls + 1) (resolved + outcome.isSome.toNat) := by
  obtain ⟨sites, own, rest, strategies⟩ := counts
  cases outcome with
  | none => exact ⟨congrArg (· + 1) sites, own, by simp only [record]; omega, strategies⟩
  | some how =>
    refine ⟨congrArg (· + 1) sites, congrArg (· + 1) own, by simp only [record]; omega, ?_⟩
    simp only [record, total_alter, strategies]

theorem Shard.counts_diagnose (counts : d.Counts calls resolved) (s : Shard)
    (index : NameIndex) :
    (s.diagnose index d).Counts (calls + (s.resolve index).callCount)
      (resolved + (s.resolve index).resolvedCallCount) := by
  have edges : (s.resolve index).functions.flatMap (·.calls) =
      (s.functions.flatMap (·.calls)).map (·.resolve s.file index) := by
    rw [Shard.resolve, List.flatMap_map, List.map_flatMap]
    rfl
  rw [diagnose, callCount_eq, resolvedCallCount_eq, edges]
  generalize s.functions.flatMap (·.calls) = calls'
  induction calls' generalizing d calls resolved with
  | nil => exact counts
  | cons e rest ih =>
    have sites : ((e :: rest).map (·.resolve s.file index)).length =
        1 + (rest.map (·.resolve s.file index)).length := by
      simp only [List.map_cons, List.length_cons]
      omega
    have hits : ((e :: rest).map (·.resolve s.file index)).countP (·.resolved) =
        ((e.outcome s.file index).map (·.2)).isSome.toNat +
          (rest.map (·.resolve s.file index)).countP (·.resolved) := by
      rw [List.map_cons, List.countP_cons, (e.resolve_outcome s.file index).1, Option.isSome_map]
      cases (e.outcome s.file index).isSome <;> simp [Nat.add_comm]
    rw [List.foldl_cons, sites, hits, ← Nat.add_assoc, ← Nat.add_assoc]
    exact ih (Diagnostics.counts_record counts _)

theorem Pass.counts_tally (counts : d.Counts calls resolved) (index : NameIndex)
    (shards : List Shard) :
    ((Pass.resolving index).tally d shards).Counts
      (calls + total (·.callCount) (shards.map (·.resolve index)))
      (resolved + total (·.resolvedCallCount) (shards.map (·.resolve index))) := by
  induction shards generalizing d calls resolved with
  | nil => exact counts
  | cons s rest ih =>
    have visited := s.counts_diagnose counts index
    have counted : ((Pass.resolving index).count d s).Counts
        (calls + (s.resolve index).callCount) (resolved + (s.resolve index).resolvedCallCount) := by
      rw [count]
      split
      · exact visited
      · exact ⟨visited.sites, visited.resolved, visited.rest, visited.strategies⟩
    simp only [List.map_cons, total, ← Nat.add_assoc]
    exact ih counted

end Counts

theorem total_linkAll {count : Shard → Nat} (same : ∀ s m, count (s.withCallers m) = count s)
    (shards : List Shard) :
    total count (linkAll shards) = total count (shards.map (·.resolve (.ofShards shards))) := by
  simp only [linkAll, total_eq_sum, List.map_map]
  apply congrArg List.sum
  apply List.map_congr_left
  intro s _
  exact same _ _

theorem counts_linkAll (topN : Nat) (shards : List Shard) :
    ((Pass.resolving (.ofShards shards)).tally {} shards).Counts
      (indexOf topN (linkAll shards)).summary.totalCalls
      (indexOf topN (linkAll shards)).summary.resolvedCalls := by
  have none : Diagnostics.Counts {} 0 0 := ⟨rfl, rfl, rfl, rfl⟩
  have counted := Pass.counts_tally none (.ofShards shards) shards
  have calls : (indexOf topN (linkAll shards)).summary.totalCalls =
      total (·.callCount) (shards.map (·.resolve (.ofShards shards))) := by
    refine (IndexSummary.totalCalls_ofShards _ _).trans (total_linkAll ?_ shards)
    intro s m
    simp [Shard.callCount, Shard.withCallers, total_eq_sum, Function.comp_def]
  have resolved : (indexOf topN (linkAll shards)).summary.resolvedCalls =
      total (·.resolvedCallCount) (shards.map (·.resolve (.ofShards shards))) := by
    refine (IndexSummary.resolvedCalls_ofShards _ _).trans (total_linkAll ?_ shards)
    intro s m
    simp [Shard.resolvedCallCount, Shard.withCallers, total_eq_sum, Function.comp_def]
  rwa [Nat.zero_add, Nat.zero_add, ← calls, ← resolved] at counted

end DataReach
