import DataReach.Derived.Index
import DataReach.Proofs.Reach.Data
import DataReach.Proofs.Sorting
/-!
Two searches along calls. The survey of all shards goes on to every id that a function calls and
passes over those without a function later; the search in a graph does not enter these at all. Level
by level they see the same ids in the same order, so the survey is that search, bounded by the
number of functions.
-/

namespace DataReach

/-! ### Ids without repetitions -/

theorem distinct_filter [BEq α] [LawfulBEq α] (p : α → Bool) (xs : List α) :
    distinct (xs.filter p) = (distinct xs).filter p := by
  induction xs with
  | nil => rfl
  | cons x rest ih =>
    rw [distinct_cons]
    by_cases kept : p x = true
    · rw [List.filter_cons_of_pos kept, List.filter_cons_of_pos kept, distinct_cons, ih,
        List.filter_comm]
    · rw [List.filter_cons_of_neg kept, List.filter_cons_of_neg kept, ih, List.filter_filter]
      apply List.filter_congr
      intro y _
      by_cases same : y = x
      · simpa [same] using kept
      · simp [same]

theorem mem_ascending {xs : List String} {x : String} : x ∈ ascending xs ↔ x ∈ xs := by
  rw [ascending, sortBy_eq, List.mem_mergeSort, mem_distinct]

theorem ascending_sorted (xs : List String) : (ascending xs).Pairwise (· < ·) := by
  rw [ascending, sortBy_eq]
  exact mergeSort_ascending id _ (nodup_keys_distinctBy id xs)

theorem ids_firstNew (seen : List String) (entries : List (String × α)) :
    (Forward.firstNew seen entries).map (·.1) = Survey.unseen seen (entries.map (·.1)) := by
  induction entries generalizing seen with
  | nil => rfl
  | cons entry rest ih =>
    obtain ⟨id, a⟩ := entry
    rw [Forward.firstNew, List.map_cons, Survey.unseen]
    by_cases old : seen.contains id = true
    · rw [if_pos old, ih, List.filter_cons_of_neg (by simp only [old]; decide), Survey.unseen]
    · have others : ∀ ids : List String, ids.filter (fun x => !(id :: seen).contains x) =
          (ids.filter fun x => !seen.contains x).filter (· != id) := by
        intro ids
        rw [List.filter_filter]
        apply List.filter_congr
        intro x _
        by_cases same : x = id <;> simp [same]
      rw [if_neg old, List.map_cons, ih, List.filter_cons_of_pos (by simpa using old),
        distinct_cons, Survey.unseen, others, distinct_filter]

namespace Survey

variable {d : Survey} {g : CallGraph} {origin : FunctionNode}

def Describes (d : Survey) (g : CallGraph) : Prop :=
  ∀ id, d.get? id = (g.function? id).map SurveyNode.ofFunction

/-! ### Level by level -/

theorem levels_nil (left depth : Nat) (seen : List String) : d.levels left depth seen [] = [] := by
  cases left <;> rfl

theorem levels_succ (left depth : Nat) (seen ids : List String) :
    d.levels (left + 1) depth seen ids =
      ids.map (·, depth) ++ d.levels left (depth + 1)
        (seen ++ unseen seen ((ids.filterMap d.get?).flatMap (·.callees)))
        (unseen seen ((ids.filterMap d.get?).flatMap (·.callees))) := by
  cases ids with
  | nil => exact (levels_nil left (depth + 1) _).symm
  | cons id rest => rfl

section Describes

variable (describes : d.Describes g)

include describes

theorem contains_iff (id : String) : d.contains id = (g.function? id).isSome := by
  rw [Dict.contains, describes, Option.isSome_map]

theorem known_level {depth : Nat} {ids : List String} {level : List Visit}
    (same : ids.filterMap g.function? = level.map (·.node))
    (marked : ∀ v ∈ level, v.depth = depth) :
    (ids.map (·, depth)).filter (fun r => d.contains r.1) =
      level.map fun v => (v.node.id, v.depth) := by
  have named : (fun id => (g.function? id).map (·.id)) = Option.guard d.contains := by
    funext id
    rw [Option.guard, contains_iff describes]
    cases found : g.function? id with
    | none => rfl
    | some f => simp [CallGraph.id_of_function? found]
  have known : ids.filter d.contains = level.map (·.node.id) := by
    calc ids.filter d.contains
      _ = (ids.filterMap g.function?).map (·.id) := by
        rw [List.map_filterMap, named, List.filterMap_eq_filter]
      _ = level.map (·.node.id) := by rw [same, List.map_map]; rfl
  calc (ids.map (·, depth)).filter (fun r => d.contains r.1)
    _ = (ids.filter d.contains).map (·, depth) := List.filter_map
    _ = level.map fun v => (v.node.id, depth) := by rw [known, List.map_map]; rfl
    _ = level.map fun v => (v.node.id, v.depth) :=
      List.map_congr_left fun v member => by rw [marked v member]

theorem unseen_eq_pending (seen : List String) {ids : List String} {level : List Visit}
    (same : ids.filterMap g.function? = level.map (·.node)) :
    unseen seen ((ids.filterMap d.get?).flatMap (·.callees)) =
      (Forward.pending seen level).map (·.1) := by
  have surveyed : ids.filterMap d.get? = (ids.filterMap g.function?).map .ofFunction := by
    rw [List.map_filterMap]
    exact List.filterMap_congr fun id _ => describes id
  have callees : (ids.filterMap d.get?).flatMap (·.callees) =
      (level.flatMap Visit.calls).map (·.1) := by
    rw [surveyed, same, List.map_map, List.flatMap_map, List.map_flatMap]
    apply List.flatMap_congr
    intro v _
    simp [Visit.calls, SurveyNode.ofFunction, Function.comp_def]
  rw [Forward.pending, ids_firstNew, callees]

/-- The survey and the search, from a level on. Ids without a function are in the levels of the one
only; as they have no callees, nothing comes of them. -/
theorem levels_eq {left depth : Nat} {seen ids : List String} {level : List Visit}
    (same : ids.filterMap g.function? = level.map (·.node))
    (marked : ∀ v ∈ level, v.depth = depth) :
    (d.levels left depth seen ids).filter (fun r => d.contains r.1) =
      ((Forward.levels left depth seen level).eval g.answers).map
        fun v => (v.node.id, v.depth) := by
  induction left generalizing depth seen ids level with
  | zero =>
    have one : d.levels 0 depth seen ids = ids.map (·, depth) := by cases ids <;> rfl
    have alone : (Forward.levels 0 depth seen level).eval g.answers = level := by
      cases level <;> rfl
    rw [one, alone]
    exact known_level describes same marked
  | succ left ih =>
    have next := unseen_eq_pending describes seen same
    have later : ∀ v ∈ (Forward.pending seen level).filterMap (Forward.visit? g (depth + 1)),
        v.depth = depth + 1 := by
      intro v member
      obtain ⟨entry, -, made⟩ := List.mem_filterMap.mp member
      obtain ⟨f, -, rfl⟩ := Option.map_eq_some_iff.mp made
      rfl
    rw [levels_succ, Forward.eval_levels_succ, List.filter_append, List.map_append, next,
      known_level describes same marked, ih (Forward.nodes_visits g (depth + 1) _).symm later]

theorem reached_eq (present : g.function? origin.id = some origin) :
    d.reached origin.id = ((Forward.visits origin (some d.length)).eval g.answers).map
      fun v => (v.node.id, v.depth) := by
  apply levels_eq describes
  · simp [present, Visit.origin]
  · simp [Visit.origin]

/-! ### What lies behind a function -/

theorem size_le : g.size ≤ d.length := by
  have within : g.functions.keys ⊆ d.keys := by
    intro id member
    by_contra absent
    have none := (Dict.get?_eq_none_iff d id).mpr absent
    rw [describes, Option.map_eq_none_iff, CallGraph.function?, Dict.get?_eq_none_iff] at none
    exact none member
  have counted := (List.subperm_of_subset g.once within).length_le
  rwa [Dict.keys, Dict.keys, List.length_map, List.length_map] at counted

theorem mem_reached (present : g.function? origin.id = some origin) {id : String} {n : Nat} :
    (id, n) ∈ d.reached origin.id ↔ ∃ f, g.CallDistance origin n f ∧ f.id = id := by
  have covers := (Forward.covers_visits present (some d.length)).1
  rw [reached_eq describes present]
  constructor
  · intro member
    obtain ⟨v, visited, same⟩ := List.mem_map.mp member
    cases same
    exact ⟨v.node, (covers.sound v visited).2.2, rfl⟩
  · rintro ⟨f, distance, rfl⟩
    have bound : n < g.size := by
      apply CallGraph.distance_lt_size _ (fun _ _ => CallGraph.function?_of_calls) distance
      rintro _ rfl
      exact present
    have within : n ≤ d.length := by
      have size := size_le describes
      omega
    obtain ⟨v, visited, rfl, rfl⟩ := (covers_mem_iff covers n f).mpr
      ⟨distance, Nat.zero_le n, within⟩
    exact List.mem_map.mpr ⟨v, visited, rfl⟩

theorem reached_iff_visited (present : g.function? origin.id = some origin)
    (fits : (d.extent origin.id).maxDepth ≤ depthLimit) {id : String} {n : Nat} :
    (id, n) ∈ d.reached origin.id ↔
      ∃ v ∈ (Forward.visits origin none).eval g.answers, v.node.id = id ∧ v.depth = n := by
  have covers := (Forward.covers_visits present none).1
  constructor
  · intro member
    obtain ⟨f, distance, rfl⟩ := (mem_reached describes present).mp member
    have below : n ≤ (d.extent origin.id).maxDepth := by
      apply (foldl_max_spec 0 _).2
      exact List.mem_cons_of_mem 0 (List.mem_map_of_mem member)
    obtain ⟨v, visited, rfl, rfl⟩ := (covers_mem_iff covers n f).mpr
      ⟨distance, Nat.zero_le n, Nat.le_trans below fits⟩
    exact ⟨v, visited, rfl, rfl⟩
  · rintro ⟨v, visited, rfl, rfl⟩
    exact (mem_reached describes present).mpr ⟨v.node, (covers.sound v visited).2.2, rfl⟩

end Describes

/-! ### The extent of an entry point -/

theorem ascending_congr {xs ys : List String} (same : ∀ x, x ∈ xs ↔ x ∈ ys) :
    ascending xs = ascending ys := by
  apply (ascending_sorted xs).eq_of_mem_iff (ascending_sorted ys)
  intro x
  rw [mem_ascending, mem_ascending, same]

theorem foldl_max_le {xs ys : List Nat} (within : xs ⊆ ys) : xs.foldl max 0 ≤ ys.foldl max 0 :=
  (foldl_max_spec 0 ys).2 _ (List.cons_subset_cons 0 within (foldl_max_spec 0 xs).1)

section Visited

variable {id : String} {visits : List Visit}
  (reached : ∀ x n, (x, n) ∈ d.reached id ↔ ∃ v ∈ visits, v.node.id = x ∧ v.depth = n)

include reached

theorem mem_functions {x : String} :
    x ∈ (d.extent id).functions ↔ x ≠ id ∧ ∃ v ∈ visits, v.node.id = x := by
  simp only [extent, mem_ascending, List.mem_filter, List.mem_map, Prod.exists, bne_iff_ne,
    exists_and_right, exists_eq_right]
  rw [and_comm]
  apply and_congr_right
  intro _
  constructor
  · rintro ⟨n, member⟩
    obtain ⟨v, visited, same, -⟩ := (reached x n).mp member
    exact ⟨v, visited, same⟩
  · rintro ⟨v, visited, same⟩
    exact ⟨v.depth, (reached x v.depth).mpr ⟨v, visited, same, rfl⟩⟩

theorem maxDepth_eq : (d.extent id).maxDepth = (visits.map (·.depth)).foldl max 0 := by
  apply Nat.le_antisymm
  · apply foldl_max_le
    intro n member
    obtain ⟨⟨x, n⟩, found, rfl⟩ := List.mem_map.mp member
    obtain ⟨v, visited, -, rfl⟩ := (reached x n).mp found
    exact List.mem_map_of_mem visited
  · apply foldl_max_le
    intro n member
    obtain ⟨v, visited, rfl⟩ := List.mem_map.mp member
    exact List.mem_map.mpr ⟨_, (reached v.node.id v.depth).mpr ⟨v, visited, rfl, rfl⟩, rfl⟩

theorem tables_eq (describes : d.Describes g)
    (held : ∀ v ∈ visits, g.function? v.node.id = some v.node) :
    (d.extent id).tables =
      ascending (visits.flatMap fun v => v.node.dataAccess.map (·.table)) := by
  apply ascending_congr
  intro table
  simp only [List.mem_flatMap, List.mem_filterMap, Prod.exists]
  constructor
  · rintro ⟨node, ⟨x, n, found, known⟩, member⟩
    obtain ⟨v, visited, rfl, -⟩ := (reached x n).mp found
    rw [describes, held v visited] at known
    cases known
    exact ⟨v, visited, mem_ascending.mp member⟩
  · rintro ⟨v, visited, member⟩
    have found := (reached v.node.id v.depth).mpr ⟨v, visited, rfl, rfl⟩
    have known : d.get? v.node.id = some (.ofFunction v.node) := by
      rw [describes, held v visited]
      rfl
    exact ⟨_, ⟨_, _, found, known⟩, mem_ascending.mpr member⟩

theorem length_functions (once : (visits.map (·.node.id)).Nodup)
    (started : id ∈ visits.map (·.node.id)) :
    visits.length = (d.extent id).functions.length + 1 := by
  have apart : (id :: (d.extent id).functions).Nodup := by
    refine List.nodup_cons.mpr ⟨fun again => ((mem_functions reached).mp again).1 rfl, ?_⟩
    exact (ascending_sorted _).nodup
  have same : (visits.map (·.node.id)).Perm (id :: (d.extent id).functions) := by
    refine (List.perm_ext_iff_of_nodup once apart).mpr fun x => ?_
    rw [List.mem_cons, mem_functions reached, ← List.mem_map]
    constructor
    · intro visited
      by_cases first : x = id
      · exact .inl first
      · exact .inr ⟨first, visited⟩
    · rintro (rfl | ⟨-, visited⟩)
      · exact started
      · exact visited
  simpa using same.length_eq

end Visited

end Survey

/-! ### The entries of the list -/

/-- An entry of the list says what a search from its function visits and reports. -/
structure EntryPoint.Tells (e : EntryPoint) (visits : List Visit) (r : Reach) : Prop where
  tables : e.reachableTables = r.tables
  ascending : e.reachableFunctions.Pairwise (· < ·)
  functions : ∀ id, id ∈ e.reachableFunctions ↔ id ≠ e.id ∧ ∃ v ∈ visits, v.node.id = id
  maxDepth : e.maxDepth = r.maxDepthReached
  traversed : r.functionsTraversed.toNat = (e.reachableFunctions.length + 1) % UInt32.size

theorem EntryPoint.tells_visits {d : Survey} {g : CallGraph} (describes : d.Describes g)
    {f origin : FunctionNode} (present : g.function? f.id = some origin)
    (fits : (ofFunction d f).maxDepth ≤ depthLimit) (c : Classifier) (place : CodeLocation) :
    (ofFunction d f).Tells ((Forward.visits origin none).eval g.answers)
      (Reach.ofVisits c {} place ((Forward.visits origin none).eval g.answers)) := by
  have own := CallGraph.id_of_function? present
  rw [← own] at present
  have covers := (Forward.covers_visits present none).1
  have reached : ∀ id n, (id, n) ∈ d.reached f.id ↔
      ∃ v ∈ (Forward.visits origin none).eval g.answers, v.node.id = id ∧ v.depth = n := by
    intro id n
    rw [← own]
    apply Survey.reached_iff_visited describes present
    rwa [own]
  have held : ∀ v ∈ (Forward.visits origin none).eval g.answers,
      g.function? v.node.id = some v.node := by
    intro v visited
    obtain ⟨walk, -⟩ := (covers.sound v visited).2.2
    apply CallGraph.exists_of_walk _ (fun _ _ => CallGraph.function?_of_calls) walk
    rintro _ rfl
    exact present
  obtain ⟨start, started, begins, -⟩ := (covers_mem_iff covers 0 origin).mpr
    ⟨distance_zero_iff.mpr rfl, Nat.le_refl 0, Nat.zero_le _⟩
  generalize (Forward.visits origin none).eval g.answers = visits at covers reached held started
  have once : (visits.map (·.node.id)).Nodup := by
    have nodes : ∀ h ∈ visits.map (·.node), g.function? h.id = some h := by simpa using held
    simpa [Function.comp_def] using CallGraph.nodup_ids nodes covers.distinct
  constructor
  · have tables : (Reach.ofVisits c {} place visits).tables =
        ascending (visits.flatMap fun v => v.node.dataAccess.map (·.table)) := by
      calc (Reach.ofVisits c {} place visits).tables
        _ = ascending ((Reach.ofVisits c {} place visits).accesses.map (·.access.table)) := rfl
        _ = ascending (visits.flatMap fun v => v.node.dataAccess.map (·.table)) := by
          rw [Reach.accesses_ofVisits, List.map_flatMap]
          simp [Function.comp_def]
    rw [tables]
    exact Survey.tables_eq reached describes held
  · exact ascending_sorted _
  · exact fun id => Survey.mem_functions reached
  · exact Survey.maxDepth_eq reached
  · have others := Survey.length_functions reached once
      (List.mem_map.mpr ⟨start, started, begins ▸ own⟩)
    exact (toNat_wordTotal_one visits).trans (congrArg (· % UInt32.size) others)

end DataReach
