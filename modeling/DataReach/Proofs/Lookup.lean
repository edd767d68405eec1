import DataReach.Proofs.FunctionId
import DataReach.Proofs.Reproducible
import DataReach.Proofs.Store.Removal
import DataReach.Store.Queries
/-!
Looking up functions by their ids in a store that was built. Only the shard that an id leads to is
read; so a function whose name has a colon is not found, and none that calls it or is called by it
says so.
-/

namespace DataReach

namespace Store

section Build

variable {inputs : List Extraction} {s t : Store} {r : BuildResult}

theorem contains_persisted (builds : Builds inputs s r t) : t.Contains t.persisted := by
  rcases builds_built builds with ⟨arrivals, filled, ks, -, -, -, built⟩
  rw [persisted_of_contains built.contains]
  exact built.contains

theorem linked_persisted (builds : Builds inputs s r t) :
    Linked (t.persisted.flatMap (·.functions)) := by
  rcases builds_built builds with ⟨arrivals, filled, ks, -, -, -, built⟩
  rw [persisted_of_contains built.contains]
  exact linked_linkAll _

theorem mem_of_saved {shards : List Shard} {m : String → Option Shard} {key : String}
    {shard : Shard} (stored : saved m shards key = some shard) :
    m key = some shard ∨ shard ∈ shards := by
  induction shards generalizing m with
  | nil => exact .inl stored
  | cons first rest ih =>
    rcases ih stored with before | later
    · rcases update_cases before with ⟨-, rfl⟩ | ⟨-, old⟩
      · exact .inr (List.mem_cons_self ..)
      · exact .inl old
    · exact .inr (List.mem_cons_of_mem first later)

/-- What is true of all extracted shards, and stays when calls are resolved and callers are given, is
true of all shards that are there after a build. -/
theorem forall_persisted (builds : Builds inputs s r t) {P : Shard → Prop}
    (start : ∀ e ∈ inputs, P e.ownShard)
    (resolve : ∀ shard index, P shard → P (shard.resolve index))
    (callers : ∀ shard m, P shard → P (shard.withCallers m)) :
    ∀ shard ∈ t.persisted, P shard := by
  rcases builds_built builds with ⟨arrivals, filled, ks, arrived, -, -, built⟩
  rw [persisted_of_contains built.contains]
  intro shard there
  rcases List.mem_map.mp there with ⟨resolved, between, rfl⟩
  rcases List.mem_map.mp between with ⟨own, member, rfl⟩
  rcases List.mem_filterMap.mp member with ⟨k, -, stored⟩
  rcases mem_of_saved stored with none | arrival
  · cases none
  · rcases List.mem_map.mp (arrived.mem_iff.mp arrival) with ⟨e, input, rfl⟩
    exact callers _ _ (resolve _ _ (start e input))

end Build

section Lookup

variable {t : Store} {shards : List Shard}

theorem function_iff (contains : t.Contains shards) (placed : ∀ shard ∈ shards, shard.Placed)
    {f : FunctionNode} (member : f ∈ shards.flatMap (·.functions)) :
    (function f.id t).1 = some f ↔
      ∃ file, FunctionNode.fileOfId f.id = some file ∧ shardKey file = shardKey f.file := by
  rcases List.mem_flatMap.mp member with ⟨shard, there, own⟩
  have once := (keys_of_contains contains).2
  have loaded : ∀ file, (loadPath file t).1 = lookup shards (shardKey file) := by
    intro file
    rcases load_shown (holds_lookup contains) (plain_shardKey file) (shardKey_ne_empty file) with
      ⟨cache, found, -⟩
    exact congrArg Prod.fst found
  have key : shard.key = shardKey f.file := by rw [(placed shard there).file f own, Shard.key]
  rw [function]
  cases FunctionNode.fileOfId f.id with
  | none => simp [run_pure]
  | some file =>
    simp only [run_bind, run_pure, loaded, Option.some.injEq, exists_eq_left']
    constructor
    · intro found
      rcases Option.bind_eq_some_iff.mp found with ⟨other, stored, named⟩
      have inside : f ∈ other.functions := List.mem_of_find?_eq_some named
      rcases (lookup_eq_some once).mp stored with ⟨known, same⟩
      rw [← same, (placed other known).file f inside, Shard.key]
    · intro same
      have stored := (lookup_eq_some once).mpr ⟨there, key.trans same.symm⟩
      rw [stored, Option.bind_some, Shard.function?_of_placed (placed shard there) own]

end Lookup

/-- After a build a function is found by its id if its name has no colon. If it has one, the id leads
to a longer path, and the function is found only if that has the key of its file by chance. Where no
name has a colon, every call that is resolved and every caller leads to a function. -/
theorem function_found {inputs : List Extraction} {s t : Store} {r : BuildResult}
    (builds : Builds inputs s r t) (named : ∀ e ∈ inputs, e.file ≠ "") :
    (∀ f ∈ t.persisted.flatMap (·.functions),
        ((function f.id t).1 = some f ↔ ':' ∉ f.name.toList ∨
          ∃ front, FunctionNode.fileOfId f.id = some (f.file ++ ":" ++ front) ∧
            shardKey (f.file ++ ":" ++ front) = shardKey f.file)) ∧
      ((∀ f ∈ t.persisted.flatMap (·.functions), ':' ∉ f.name.toList) →
        ∀ f ∈ t.persisted.flatMap (·.functions),
          (∀ id ∈ f.resolvedCallees, ∃ g ∈ t.persisted.flatMap (·.functions),
            (function id t).1 = some g) ∧
          ∀ caller ∈ f.calledBy, ∃ g ∈ t.persisted.flatMap (·.functions),
            (function caller.callerId t).1 = some g) := by
  have contains := contains_persisted builds
  have placed : ∀ shard ∈ t.persisted, shard.Placed :=
    forall_persisted builds (fun e _ => e.placed_shard e.file e.accesses)
      (fun _ index placed => Shard.placed_resolve placed index)
      (fun _ m placed => Shard.placed_withCallers placed m)
  have files : ∀ shard ∈ t.persisted, shard.file ≠ "" :=
    forall_persisted builds named (fun _ _ some => some) (fun _ _ some => some)
  have found : ∀ f ∈ t.persisted.flatMap (·.functions),
      ((function f.id t).1 = some f ↔ ':' ∉ f.name.toList ∨
        ∃ front, FunctionNode.fileOfId f.id = some (f.file ++ ":" ++ front) ∧
          shardKey (f.file ++ ":" ++ front) = shardKey f.file) := by
    intro f member
    rcases List.mem_flatMap.mp member with ⟨shard, there, own⟩
    have file := (placed shard there).file f own
    have id := (placed shard there).id f own
    rw [function_iff contains placed member]
    by_cases colon : ':' ∈ f.name.toList
    · rcases FunctionNode.fileOfId_colon colon shard.file f.startLine with ⟨front, leads⟩
      rw [id, leads, file]
      simp [colon]
    · rw [id, FunctionNode.fileOfId_makeId (files shard there) colon, file]
      simp [colon]
  refine ⟨found, fun plain f member => ⟨fun id callee => ?_, fun caller listed => ?_⟩⟩
  · rcases List.mem_filterMap.mp callee with ⟨e, call, target⟩
    have resolved : e.resolvedId = some id := by
      rw [CallEdge.callee?] at target
      split at target
      · exact target
      · cases target
    rcases (linked_persisted builds).inside f member e call id resolved with ⟨g, there, rfl⟩
    exact ⟨g, there, (found g there).mpr (.inl (plain g there))⟩
  · rcases ((linked_persisted builds).called f member caller).mp listed with ⟨calls, -⟩
    rcases calls with ⟨g, there, same, -⟩
    rw [← same]
    exact ⟨g, there, (found g there).mpr (.inl (plain g there))⟩

/-- In each of two files a function is found. -/
theorem function_found_mutual :
    (∀ e ∈ mutualInputs, e.file ≠ "") ∧ ∃ r t, Builds mutualInputs blankStore r t ∧
      (t.persisted.flatMap (·.functions)).length = 2 ∧
      ∀ f ∈ t.persisted.flatMap (·.functions), (function f.id t).1 = some f ∧
        ∀ id ∈ f.resolvedCallees, ∃ g ∈ t.persisted.flatMap (·.functions),
          (function id t).1 = some g := by
  have named : ∀ e ∈ mutualInputs, e.file ≠ "" := by decide
  rcases builds_of_succeeds succeeds_mutualInputs with ⟨r, t, builds, checked⟩
  have names := of_decide_eq_true checked
  have plain : ∀ f ∈ t.persisted.flatMap (·.functions), ':' ∉ f.name.toList := by
    intro f member
    have short : f.name ∈ ["f", "g"] := names ▸ List.mem_map_of_mem member
    revert short
    generalize f.name = name
    revert name
    decide
  obtain ⟨found, linked⟩ := function_found builds named
  exact ⟨named, r, t, builds, by simpa using congrArg List.length names, fun f member =>
    ⟨(found f member).mpr (.inl (plain f member)), (linked plain f member).1⟩⟩

def selectorInputs : List Extraction :=
  [⟨"a.m", "objc", [⟨"run:", none, 1, 9, true, none, []⟩], [⟨"run:", 3, none⟩], [], [], [], []⟩]

/-- Its call is resolved to a function that is stored but not found. -/
theorem selector_not_found :
    (∀ e ∈ selectorInputs, e.file ≠ "") ∧ (selectorInputs.map fun e => shardKey e.file).Nodup ∧
      ∃ r t, Builds selectorInputs blankStore r t ∧ ∃ f ∈ t.persisted.flatMap (·.functions),
        f.id ∈ f.resolvedCallees ∧ (function f.id t).1 = none := by
  have ran : succeeds 1 none selectorInputs blankStore (fun t =>
      (t.persisted.flatMap (·.functions)).any fun f =>
        decide (f.id ∈ f.resolvedCallees) && (function f.id t).1.isNone) = true := by
    decide +kernel
  rcases builds_of_succeeds ran with ⟨r, t, builds, checked⟩
  rcases List.any_eq_true.mp checked with ⟨f, member, both⟩
  rcases Bool.and_eq_true_iff.mp both with ⟨called, missing⟩
  exact ⟨by decide, List.nodup_singleton _, r, t, builds, f, member, of_decide_eq_true called,
    Option.isNone_iff_eq_none.mp missing⟩

end Store

end DataReach
