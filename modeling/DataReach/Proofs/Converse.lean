import DataReach.Proofs.Graph
import DataReach.Proofs.Linked
import DataReach.Proofs.Reach.Backward
/-!
In a graph of linked shards calls and callers mirror each other: a function is among the recorded
callers of another one exactly when it calls it. Walks along the ones are then walks along the
others, read backwards.
-/

namespace DataReach

namespace CallGraph

theorem function?_ofShards {shards : List Shard}
    (once : ((shards.flatMap (·.functions)).map (·.id)).Nodup) {f : FunctionNode} :
    (ofShards shards).function? f.id = some f ↔ f ∈ shards.flatMap (·.functions) := by
  have indexed := indexed_foldl (shards.flatMap (·.functions))
  constructor
  · exact indexed.mem_of_function?
  · intro member
    have backwards : ((shards.flatMap (·.functions)).reverse.map (·.id)).Nodup := by
      rwa [List.map_reverse, List.nodup_reverse]
    rw [ofShards, indexed.latest]
    exact find?_of_nodup_keys backwards (List.mem_reverse.mpr member)

/-- A function of the graph is a recorded caller of another one exactly when it calls it. -/
def Mirrored (g : CallGraph) : Prop :=
  ∀ f h, g.function? f.id = some f → g.function? h.id = some h → (g.HasCaller f h ↔ g.Calls h f)

/-- The graph of shards whose functions have been given the callers found in all of them. -/
def ofLinked (shards : List Shard) : CallGraph :=
  ofShards (shards.map (·.withCallers (.ofShards shards)))

theorem hasCaller_iff {g : CallGraph} {f h : FunctionNode} (present : g.function? h.id = some h) :
    g.HasCaller f h ↔ ∃ r ∈ f.calledBy, r.callerId = h.id := by
  constructor
  · intro given
    obtain ⟨r, own, found⟩ := given
    exact ⟨r, own, (id_of_function? found).symm⟩
  · intro given
    obtain ⟨r, own, same⟩ := given
    exact ⟨r, own, same ▸ present⟩

theorem calls_iff {g : CallGraph} {f h : FunctionNode} (present : g.function? h.id = some h) :
    g.Calls f h ↔ h.id ∈ f.resolvedCallees := by
  constructor
  · intro given
    obtain ⟨id, called, found⟩ := given
    rwa [id_of_function? found]
  · intro called
    exact ⟨h.id, called, present⟩

theorem mem_resolvedCallees {f : FunctionNode} {id : String} :
    id ∈ f.resolvedCallees ↔ ∃ e ∈ f.calls, e.resolved = true ∧ e.resolvedId = some id := by
  rw [FunctionNode.resolvedCallees, List.mem_filterMap]
  refine exists_congr fun e => and_congr_right fun _ => ?_
  cases resolved : e.resolved <;> simp [CallEdge.callee?, resolved]

theorem exists_calls_iff {functions : List FunctionNode} (once : (functions.map (·.id)).Nodup)
    {f : FunctionNode} (inside : f ∈ functions) (callee : String) :
    (∃ line, DataReach.Calls functions f.id callee line) ↔ callee ∈ f.resolvedCallees := by
  rw [mem_resolvedCallees]
  constructor
  · intro given
    obtain ⟨line, h, member, same, e, own, resolved, target, -⟩ := given
    have equal : h = f := List.inj_on_of_nodup_map once member inside same
    exact ⟨e, equal ▸ own, resolved, target⟩
  · intro given
    obtain ⟨e, own, resolved, target⟩ := given
    exact ⟨e.line, f, inside, rfl, e, own, resolved, target, rfl⟩

theorem mirrored_ofLinked {shards : List Shard}
    (once : ((shards.flatMap (·.functions)).map (·.id)).Nodup) : (ofLinked shards).Mirrored := by
  have linked := functions_withCallers shards (.ofShards shards)
  have still : (((shards.map (·.withCallers (.ofShards shards))).flatMap
      (·.functions)).map (·.id)).Nodup := by
    rw [linked, List.map_map]
    exact once
  intro f h first second
  have isCallee := (function?_ofShards still).mp first
  have isCaller := (function?_ofShards still).mp second
  rw [linked] at isCallee isCaller
  obtain ⟨callee, -, rfl⟩ := List.mem_map.mp isCallee
  obtain ⟨caller, inside, rfl⟩ := List.mem_map.mp isCaller
  rw [hasCaller_iff second, calls_iff first, CallerMap.ofShards_eq, CallerMap.exists_mem_refs]
  simp only [mem_callsOf]
  exact exists_calls_iff once inside callee.id

section Walks

variable {g : CallGraph} {f h : FunctionNode} {n : Nat}

theorem walk_mirrored (mirrored : g.Mirrored) (first : g.function? f.id = some f)
    (second : g.function? h.id = some h) :
    Walk (· = f) g.HasCaller n h ↔ Walk (· = h) g.Calls n f := by
  constructor
  · intro walk
    refine walk_reverse walk fun m x y before link => ?_
    have start : ∀ k, k = f → g.function? k.id = some k := fun k same => same ▸ first
    have present := exists_of_walk start (fun _ _ => function?_of_hasCaller) before
    exact (mirrored x y present (function?_of_hasCaller link)).mp link
  · intro walk
    refine walk_reverse walk fun m x y before link => ?_
    have start : ∀ k, k = h → g.function? k.id = some k := fun k same => same ▸ second
    have present := exists_of_walk start (fun _ _ => function?_of_calls) before
    exact (mirrored y x (function?_of_calls link) present).mpr link

theorem distance_mirrored (mirrored : g.Mirrored) (first : g.function? f.id = some f)
    (second : g.function? h.id = some h) :
    Distance (· = f) g.HasCaller n h ↔ g.CallDistance h n f := by
  simp only [CallDistance, Distance, walk_mirrored mirrored first second]

end Walks

end CallGraph

end DataReach
