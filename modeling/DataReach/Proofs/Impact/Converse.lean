import DataReach.Proofs.Converse
import DataReach.Proofs.Impact.DataPaths
/-!
What a change affects is the converse of what functions reach: in a graph of linked shards a function
is affected by the change of another one exactly when its forward search comes to that one, and at
the same depth. A way into a change that goes on to sensitive data is therefore flagged.
-/

namespace DataReach

namespace Impact

variable {g : CallGraph} {c : Classifier} {maxDepth : Option Nat} {changed : List FunctionNode}

theorem reachesSensitive_of_walk {f h : FunctionNode} {n : Nat} {access : DataAccess}
    (present : g.function? f.id = some f) (walk : Walk (· = f) g.Calls n h)
    (within : n ≤ maxDepth.getD depthLimit ∨ maxDepth = none ∧ g.size ≤ depthLimit)
    (sensitive : access ∈ sensitiveAccesses c h) : reachesSensitive g c maxDepth f = true := by
  have held : ∀ k ∈ [f], g.function? k.id = some k := by simpa using present
  have reached : Reaches g maxDepth [f] h := ⟨f, List.mem_singleton_self f, n, walk, within⟩
  obtain ⟨k, own, v, visited, rfl⟩ := (reaches_iff_visited held).mp reached
  rw [List.mem_singleton.mp own] at visited
  have hit : ∃ hit, hit ∈ (hits c maxDepth f).eval g.answers := by
    rw [eval_hits g c maxDepth present]
    exact ⟨_, List.mem_flatMap.mpr ⟨v, visited, List.mem_map_of_mem sensitive⟩⟩
  obtain ⟨hit, member⟩ := hit
  simp [reachesSensitive, List.ne_nil_of_mem member]

theorem walk_of_affected (mirrored : g.Mirrored)
    (present : ∀ f ∈ changed, g.function? f.id = some f) (distinct : changed.Nodup)
    {a : AffectedFunction} (member : a ∈ affectedBy g c maxDepth changed) {x : FunctionNode}
    (inside : x ∈ changed) (ends : a.pathToChange.getLast?.map (·.functionId) = some x.id) :
    ∃ f, g.function? f.id = some f ∧ a.accessesSensitiveData = reachesSensitive g c maxDepth f ∧
      Walk (· = f) g.Calls a.depth x := by
  obtain ⟨f, chain, found, same, isChain, -⟩ := described_affectedBy present distinct member
  obtain ⟨last, seed, isLast⟩ := isChain.last
  have ends' : last = x := by
    apply CallGraph.eq_of_id (present last seed) (present x inside)
    rw [same] at ends
    simpa [AffectedFunction.ofFunction, isLast, PathNode.ofFunction] using ends
  have back : WalkOf (· = x) g.HasCaller a.depth f chain.reverse :=
    { CallGraph.callerChain_iff_walkOf.mp isChain with
      first := ⟨x, rfl, by simpa [ends'] using isLast⟩ }
  refine ⟨f, found, by rw [same]; rfl, ?_⟩
  exact (CallGraph.walk_mirrored mirrored (present x inside) found).mp (walkOf_walk back)

theorem walk_of_entry (mirrored : g.Mirrored)
    (present : ∀ f ∈ changed, g.function? f.id = some f)
    (ascending : changed.Pairwise (·.id < ·.id)) (distinct : changed.Nodup)
    {a : AffectedFunction} (member : a ∈ entriesInto g c maxDepth changed) {x : FunctionNode}
    (inside : x ∈ changed) (ends : a.pathToChange.getLast?.map (·.functionId) = some x.id) :
    ∃ f, g.function? f.id = some f ∧ a.accessesSensitiveData = reachesSensitive g c maxDepth f ∧
      Walk (· = f) g.Calls a.depth x := by
  rw [entriesInto_eq present ascending distinct, List.mem_append] at member
  rcases member with own | affected
  · obtain ⟨f, isEntry, rfl⟩ := List.mem_map.mp own
    have held : f ∈ changed := List.mem_of_mem_filter isEntry
    have same : f = x :=
      CallGraph.eq_of_id (present f held) (present x inside) (Option.some.inj ends)
    exact ⟨f, present f held, rfl, .here same.symm⟩
  · exact walk_of_affected mirrored present distinct (List.mem_of_mem_filter affected) inside ends

/-- The report of a change against forward searches. Without a bound it is the number of functions,
or that of the calls counted, that keeps a search short of the limit. -/
structure ConverseOfReach (g : CallGraph) (c : Classifier) : Prop where
  affected_iff : ∀ f h, g.function? f.id = some f → g.function? h.id = some h → h ≠ f → ∀ d,
    ((∃ a ∈ ((ofFunction c none f.id).eval g.answers).affected, a.id = h.id ∧ a.depth = d) ↔
      ∃ v ∈ (Forward.visits h none).eval g.answers, v.node = f ∧ v.depth = d)
  flagged : ∀ target changed, (∀ f ∈ changed, g.function? f.id = some f) →
    ∀ a ∈ ((analyze c none target changed).eval g.answers).affected ++
        ((analyze c none target changed).eval g.answers).entryPoints,
    ∀ x ∈ changed, a.pathToChange.getLast?.map (·.functionId) = some x.id →
    ∀ n h access, Walk (· = x) g.Calls n h → access ∈ h.dataAccess →
      c.classifyAccess access ≠ .unknown →
      a.depth + n ≤ depthLimit ∨ g.size ≤ depthLimit → a.accessesSensitiveData = true

theorem affected_iff_visited (mirrored : g.Mirrored) {f h : FunctionNode}
    (first : g.function? f.id = some f) (second : g.function? h.id = some h) (other : h ≠ f)
    (d : Nat) :
    (∃ a ∈ ((ofFunction c maxDepth f.id).eval g.answers).affected, a.id = h.id ∧ a.depth = d) ↔
      ∃ v ∈ (Forward.visits h maxDepth).eval g.answers, v.node = f ∧ v.depth = d := by
  have held : ∀ k ∈ [f], g.function? k.id = some k := by simpa using first
  have alone : (· ∈ [f]) = (· = f) := funext fun k => propext List.mem_singleton
  have outside : g.CallDistance h d f → 1 ≤ d := by
    intro distance
    refine Nat.one_le_iff_ne_zero.mpr fun zero => other ?_
    exact (CallGraph.callDistance_zero_iff.mp (zero ▸ distance)).symm
  have impact : ((ofFunction c maxDepth f.id).eval g.answers).affected =
      affectedBy g c maxDepth (distinctById [f]) := by
    rw [ofFunction, Inquiry.eval_bind, Inquiry.eval_function]
    simp only [CallGraph.answers, first, Option.toList_some]
    rw [eval_analyze g c maxDepth f.id (List.cons_ne_nil f []) held, affected_ofChanged]
  have single : distinctById [f] = [f] := by
    rw [distinctById, List.mergeSort_singleton]
    rfl
  rw [impact, single, affectedAt_iff held (List.nodup_singleton f) second, alone,
    CallGraph.distance_mirrored mirrored first second,
    covers_mem_iff (Forward.covers_visits second maxDepth).1]
  constructor
  · intro given
    obtain ⟨distance, -, within⟩ := given
    exact ⟨distance, Nat.zero_le d, within⟩
  · intro given
    obtain ⟨distance, -, within⟩ := given
    exact ⟨distance, outside distance, within⟩

theorem flagged_of_reach (mirrored : g.Mirrored) {target : String}
    (present : ∀ f ∈ changed, g.function? f.id = some f) {a : AffectedFunction}
    (member : a ∈ ((analyze c maxDepth target changed).eval g.answers).affected ++
      ((analyze c maxDepth target changed).eval g.answers).entryPoints)
    {x h : FunctionNode} (inside : x ∈ changed)
    (ends : a.pathToChange.getLast?.map (·.functionId) = some x.id) {n : Nat} {access : DataAccess}
    (walk : Walk (· = x) g.Calls n h) (sensitive : access ∈ sensitiveAccesses c h)
    (within : a.depth + n ≤ maxDepth.getD depthLimit ∨ maxDepth = none ∧ g.size ≤ depthLimit) :
    a.accessesSensitiveData = true := by
  have same := mem_distinctById present
  have held : ∀ f ∈ distinctById changed, g.function? f.id = some f := fun f kept =>
    present f ((same f).mp kept)
  have distinct := nodup_distinctById changed
  have kept := (same x).mpr inside
  rw [eval_analyze g c maxDepth target (List.ne_nil_of_mem inside) present, affected_ofChanged,
    entryPoints_ofChanged, List.mem_append] at member
  have way : ∃ f, g.function? f.id = some f ∧
      a.accessesSensitiveData = reachesSensitive g c maxDepth f ∧ Walk (· = f) g.Calls a.depth x := by
    rcases member with affected | entry
    · exact walk_of_affected mirrored held distinct affected kept ends
    · exact walk_of_entry mirrored held (ids_distinctById changed) distinct entry kept ends
  obtain ⟨f, found, flag, before⟩ := way
  rw [flag]
  exact reachesSensitive_of_walk found (walk_trans before walk) within sensitive

/-- Impact is the converse of forward reachability, for shards that are linked with each other. -/
theorem impact_converse (shards : List Shard) (c : Classifier)
    (once : ((shards.flatMap (·.functions)).map (·.id)).Nodup) :
    ConverseOfReach (.ofLinked shards) c := by
  have mirrored := CallGraph.mirrored_ofLinked once
  constructor
  · intro f h first second other d
    exact affected_iff_visited mirrored first second other d
  · intro target changed present a member x inside ends n h access walk own sensitive within
    have sensitive' := mem_sensitiveAccesses.mpr ⟨own, sensitive⟩
    refine flagged_of_reach mirrored present member inside ends walk sensitive' ?_
    exact within.imp_right fun small => ⟨rfl, small⟩

/-- The functions call each other, and the one outside the change reads what is sensitive. -/
theorem impact_converse_loop :
    let shards := [⟨"a.py", [Reach.looping]⟩, ⟨"b.py", [Reach.loopedBack]⟩]
    ((shards.flatMap (·.functions)).map (·.id)).Nodup ∧
      ConverseOfReach (.ofLinked shards) .standard := by
  have once : ([Reach.looping, Reach.loopedBack].map (·.id)).Nodup := by decide
  exact ⟨once, impact_converse _ _ once⟩

end Impact

end DataReach
