import DataReach.Graph
import DataReach.Reach.Data
import DataReach.Proofs.Distance
import Mathlib.Data.List.Nodup
/-!
The forward search is exact. It visits the functions at each call distance from the origin up to
the bound, each once and by a shortest path; what it reports is read off these visits.
-/

namespace DataReach

namespace CallGraph

def Calls (g : CallGraph) (f h : FunctionNode) : Prop :=
  ∃ id ∈ f.resolvedCallees, g.function? id = some h

abbrev CallDistance (g : CallGraph) (origin : FunctionNode) (n : Nat) (f : FunctionNode) : Prop :=
  Distance (· = origin) g.Calls n f

def CallPath (g : CallGraph) (origin : FunctionNode) (n : Nat) (f : FunctionNode)
    (path : List PathNode) : Prop :=
  ∃ items, WalkOf (· = origin) g.Calls n f items ∧ path = items.map PathNode.ofFunction

theorem callDistance_zero_iff {g : CallGraph} {origin f : FunctionNode} :
    g.CallDistance origin 0 f ↔ f = origin :=
  @distance_zero_iff _ (· = origin) g.Calls f

theorem exists_of_walk {g : CallGraph} {start : FunctionNode → Prop}
    {step : FunctionNode → FunctionNode → Prop}
    (starts : ∀ f, start f → g.function? f.id = some f)
    (steps : ∀ f h, step f h → g.function? h.id = some h) {n : Nat} {f : FunctionNode}
    (walk : Walk start step n f) : g.function? f.id = some f := by
  cases walk with
  | here started => exact starts f started
  | next _ link => exact steps _ f link

theorem function?_of_calls {g : CallGraph} {f h : FunctionNode} (link : g.Calls f h) :
    g.function? h.id = some h := by
  obtain ⟨id, -, found⟩ := link
  rwa [id_of_function? found]

theorem eq_of_id {g : CallGraph} {f h : FunctionNode} (first : g.function? f.id = some f)
    (second : g.function? h.id = some h) (same : f.id = h.id) : f = h := by
  rw [same, second] at first
  exact (Option.some.inj first).symm

theorem distance_lt_size {g : CallGraph} {start : FunctionNode → Prop}
    {step : FunctionNode → FunctionNode → Prop}
    (starts : ∀ f, start f → g.function? f.id = some f)
    (steps : ∀ f h, step f h → g.function? h.id = some h) {n : Nat} {f : FunctionNode}
    (distance : Distance start step n f) : n < g.size := by
  have bound := lt_length_of_distance FunctionNode.id g.functions.keys distance ?_ ?_
  · rwa [Dict.keys, List.length_map] at bound
  · intro m k a b first second same
    exact eq_of_id (exists_of_walk starts steps first.1) (exists_of_walk starts steps second.1) same
  · intro m a _ near
    have member := Dict.mem_of_get? (exists_of_walk starts steps near.1)
    exact List.mem_map.mpr ⟨_, member, rfl⟩

theorem nodup_ids {g : CallGraph} {functions : List FunctionNode}
    (present : ∀ f ∈ functions, g.function? f.id = some f) (distinct : functions.Nodup) :
    (functions.map (·.id)).Nodup := by
  refine (List.nodup_map_iff_inj_on distinct).mpr fun f first h second same => ?_
  exact eq_of_id (present f first) (present h second) same

end CallGraph

namespace Forward

theorem mem_firstNew {α : Type} {seen : List String} {entries : List (String × α)}
    {entry : String × α} (member : entry ∈ firstNew seen entries) :
    entry ∈ entries ∧ entry.1 ∉ seen := by
  induction entries generalizing seen with
  | nil => cases member
  | cons head rest ih =>
    obtain ⟨id, a⟩ := head
    simp only [firstNew, List.contains_iff_mem] at member
    split at member
    · obtain ⟨later, fresh⟩ := ih member
      exact ⟨List.mem_cons_of_mem _ later, fresh⟩
    · next new =>
      rcases List.mem_cons.mp member with rfl | member
      · exact ⟨List.mem_cons_self .., new⟩
      · obtain ⟨later, fresh⟩ := ih member
        exact ⟨List.mem_cons_of_mem _ later, fun old => fresh (List.mem_cons_of_mem _ old)⟩

theorem id_mem_firstNew {α : Type} {seen : List String} {entries : List (String × α)}
    {entry : String × α} (member : entry ∈ entries) (fresh : entry.1 ∉ seen) :
    entry.1 ∈ (firstNew seen entries).map (·.1) := by
  induction entries generalizing seen with
  | nil => cases member
  | cons head rest ih =>
    obtain ⟨id, a⟩ := head
    simp only [firstNew, List.contains_iff_mem]
    by_cases here : entry.1 = id
    · have new : id ∉ seen := here ▸ fresh
      rw [if_neg new]
      simp [here]
    · have later : entry ∈ rest := by
        rcases List.mem_cons.mp member with rfl | later
        · exact absurd rfl here
        · exact later
      split
      · exact ih later fresh
      · exact List.mem_cons_of_mem _ (ih later (by simp [here, fresh]))

theorem nodup_firstNew {α : Type} (seen : List String) (entries : List (String × α)) :
    ((firstNew seen entries).map (·.1)).Nodup := by
  induction entries generalizing seen with
  | nil => exact List.nodup_nil
  | cons head rest ih =>
    obtain ⟨id, a⟩ := head
    simp only [firstNew]
    split
    · exact ih seen
    · refine List.nodup_cons.mpr ⟨fun again => ?_, ih (id :: seen)⟩
      obtain ⟨entry, member, same⟩ := List.mem_map.mp again
      exact (mem_firstNew member).2 (same ▸ List.mem_cons_self ..)

def visit? (g : CallGraph) (depth : Nat) (entry : String × List PathNode) : Option Visit :=
  (g.function? entry.1).map fun f => ⟨f, entry.2 ++ [.ofFunction f], depth⟩

theorem eval_follow (g : CallGraph) (depth : Nat) (entries : List (String × List PathNode)) :
    (follow depth entries).eval g.answers = entries.filterMap (visit? g depth) := by
  induction entries with
  | nil => rfl
  | cons entry rest ih =>
    obtain ⟨id, path⟩ := entry
    simp only [follow, Inquiry.eval_bind, Inquiry.eval_function, Inquiry.eval_pure, ih,
      CallGraph.answers]
    cases found : g.function? id with
    | none => simp [visit?, found]
    | some f => simp [visit?, found]

theorem nodes_visits (g : CallGraph) (depth : Nat) (entries : List (String × List PathNode)) :
    (entries.filterMap (visit? g depth)).map (·.node) =
      (entries.map (·.1)).filterMap g.function? := by
  rw [List.map_filterMap, List.filterMap_map]
  congr 1
  funext entry
  simp [visit?, Function.comp_def]

theorem nodup_visits (g : CallGraph) (depth : Nat) (entries : List (String × List PathNode))
    (once : (entries.map (·.1)).Nodup) :
    ((entries.filterMap (visit? g depth)).map (·.node)).Nodup := by
  rw [nodes_visits]
  refine once.filterMap fun id other f first second => ?_
  rw [← CallGraph.id_of_function? first, ← CallGraph.id_of_function? second]

section Levels

variable {g : CallGraph} {origin : FunctionNode}

/-- The search has come to the functions at a depth, and has seen those no further away. What else
it has seen are ids without a function. -/
structure Frontier (g : CallGraph) (origin : FunctionNode) (depth : Nat) (seen : List String)
    (level : List Visit) : Prop where
  sound : ∀ v ∈ level, v.depth = depth ∧ g.CallDistance origin depth v.node
  complete : ∀ f, g.CallDistance origin depth f → ∃ v ∈ level, v.node = f
  distinct : (level.map (·.node)).Nodup
  paths : ∀ v ∈ level, g.CallPath origin depth v.node v.path
  seen_of_near : ∀ m f, m ≤ depth → g.CallDistance origin m f → f.id ∈ seen
  near_of_seen : ∀ id f, id ∈ seen → g.function? id = some f →
    ∃ m, m ≤ depth ∧ g.CallDistance origin m f

theorem frontier_origin (present : g.function? origin.id = some origin) :
    Frontier g origin 0 [origin.id] [.origin origin] where
  sound := by
    intro v member
    rw [List.mem_singleton.mp member]
    exact ⟨rfl, CallGraph.callDistance_zero_iff.mpr rfl⟩
  complete := by
    intro f distance
    exact ⟨.origin origin, List.mem_singleton_self _, (CallGraph.callDistance_zero_iff.mp distance).symm⟩
  distinct := List.nodup_singleton _
  paths := by
    intro v member
    rw [List.mem_singleton.mp member]
    exact ⟨[origin], walkOf_start rfl, rfl⟩
  seen_of_near := by
    intro m f bound distance
    obtain rfl : m = 0 := by omega
    exact CallGraph.callDistance_zero_iff.mp distance ▸ List.mem_singleton_self _
  near_of_seen := by
    intro id f seen found
    rw [List.mem_singleton.mp seen, present] at found
    exact ⟨0, Nat.le_refl 0, CallGraph.callDistance_zero_iff.mpr (Option.some.inj found).symm⟩

def pending (seen : List String) (level : List Visit) : List (String × List PathNode) :=
  firstNew seen (level.flatMap Visit.calls)

theorem mem_pending {seen : List String} {level : List Visit} {id : String}
    {path : List PathNode} (member : (id, path) ∈ pending seen level) :
    id ∉ seen ∧ ∃ v ∈ level, id ∈ v.node.resolvedCallees ∧ path = v.path := by
  obtain ⟨called, fresh⟩ := mem_firstNew member
  obtain ⟨v, inLevel, called⟩ := List.mem_flatMap.mp called
  obtain ⟨callee, resolved, same⟩ := List.mem_map.mp called
  cases same
  exact ⟨fresh, v, inLevel, resolved, rfl⟩

theorem id_mem_pending {seen : List String} {level : List Visit} {id : String} {v : Visit}
    (fresh : id ∉ seen) (inLevel : v ∈ level) (resolved : id ∈ v.node.resolvedCallees) :
    id ∈ (pending seen level).map (·.1) := by
  have called : (id, v.path) ∈ level.flatMap Visit.calls :=
    List.mem_flatMap.mpr ⟨v, inLevel, List.mem_map_of_mem resolved⟩
  exact id_mem_firstNew called fresh

theorem distance_of_pending {depth : Nat} {seen : List String} {level : List Visit}
    (frontier : Frontier g origin depth seen level) {id : String} {path : List PathNode}
    {f : FunctionNode} (member : (id, path) ∈ pending seen level)
    (found : g.function? id = some f) : g.CallDistance origin (depth + 1) f := by
  obtain ⟨fresh, v, inLevel, resolved, -⟩ := mem_pending member
  obtain ⟨-, distance⟩ := frontier.sound v inLevel
  refine distance_succ_iff.mpr ⟨⟨v.node, distance, id, resolved, found⟩, fun m bound nearer => ?_⟩
  have old := frontier.seen_of_near m f bound nearer
  rw [CallGraph.id_of_function? found] at old
  exact fresh old

theorem pending_of_distance {depth : Nat} {seen : List String} {level : List Visit}
    (frontier : Frontier g origin depth seen level) {f : FunctionNode}
    (distance : g.CallDistance origin (depth + 1) f) :
    ∃ path, (f.id, path) ∈ pending seen level := by
  obtain ⟨before, near, id, resolved, found⟩ := distance_before distance
  obtain ⟨v, inLevel, rfl⟩ := frontier.complete before near
  have fresh : id ∉ seen := by
    intro old
    obtain ⟨m, bound, nearer⟩ := frontier.near_of_seen id f old found
    have same := distance_unique distance nearer
    omega
  have listed := id_mem_pending fresh inLevel resolved
  rw [← CallGraph.id_of_function? found] at listed
  obtain ⟨⟨_, path⟩, member, rfl⟩ := List.mem_map.mp listed
  exact ⟨path, member⟩

theorem frontier_next {depth : Nat} {seen : List String} {level : List Visit}
    (frontier : Frontier g origin depth seen level) :
    Frontier g origin (depth + 1) (seen ++ (pending seen level).map (·.1))
      ((pending seen level).filterMap (visit? g (depth + 1))) where
  sound := by
    intro v member
    obtain ⟨⟨id, path⟩, listed, made⟩ := List.mem_filterMap.mp member
    obtain ⟨f, found, rfl⟩ := Option.map_eq_some_iff.mp made
    exact ⟨rfl, distance_of_pending frontier listed found⟩
  complete := by
    intro f distance
    obtain ⟨path, listed⟩ := pending_of_distance frontier distance
    obtain ⟨_, _, id, _, found⟩ := distance_before distance
    have present : g.function? f.id = some f := by rwa [CallGraph.id_of_function? found]
    have made : visit? g (depth + 1) (f.id, path) =
        some ⟨f, path ++ [.ofFunction f], depth + 1⟩ := by
      simp only [visit?, present, Option.map_some]
    exact ⟨_, List.mem_filterMap.mpr ⟨(f.id, path), listed, made⟩, rfl⟩
  distinct := nodup_visits g (depth + 1) _ (nodup_firstNew seen _)
  paths := by
    intro v member
    obtain ⟨⟨id, path⟩, listed, made⟩ := List.mem_filterMap.mp member
    obtain ⟨f, found, rfl⟩ := Option.map_eq_some_iff.mp made
    obtain ⟨-, caller, inLevel, resolved, rfl⟩ := mem_pending listed
    obtain ⟨items, walk, same⟩ := frontier.paths caller inLevel
    exact ⟨items ++ [f], walkOf_append walk ⟨id, resolved, found⟩, by simp [same]⟩
  seen_of_near := by
    intro m f bound distance
    rcases Nat.lt_or_eq_of_le bound with below | rfl
    · exact List.mem_append_left _ (frontier.seen_of_near m f (by omega) distance)
    · obtain ⟨path, listed⟩ := pending_of_distance frontier distance
      exact List.mem_append_right _ (List.mem_map.mpr ⟨_, listed, rfl⟩)
  near_of_seen := by
    intro id f member found
    rcases List.mem_append.mp member with old | new
    · obtain ⟨m, bound, distance⟩ := frontier.near_of_seen id f old found
      exact ⟨m, by omega, distance⟩
    · obtain ⟨⟨_, path⟩, listed, rfl⟩ := List.mem_map.mp new
      exact ⟨depth + 1, Nat.le_refl _, distance_of_pending frontier listed found⟩

theorem covers_frontier {depth : Nat} {seen : List String} {level : List Visit}
    (frontier : Frontier g origin depth seen level) :
    Covers (· = origin) g.Calls depth depth Visit.node Visit.depth level :=
  covers_level frontier.sound frontier.complete frontier.distinct

theorem eval_levels_nil (left depth : Nat) (seen : List String) :
    (levels left depth seen []).eval g.answers = [] := by
  cases left <;> rfl

theorem eval_levels_succ (left depth : Nat) (seen : List String) (level : List Visit) :
    (levels (left + 1) depth seen level).eval g.answers =
      level ++ (levels left (depth + 1) (seen ++ (pending seen level).map (·.1))
        ((pending seen level).filterMap (visit? g (depth + 1)))).eval g.answers := by
  cases level with
  | nil => exact (eval_levels_nil left (depth + 1) _).symm
  | cons first others =>
    simp only [levels, Inquiry.eval_bind, Inquiry.eval_pure, eval_follow, pending]

theorem covers_levels {depth : Nat} {seen : List String} {level : List Visit}
    (frontier : Frontier g origin depth seen level) (left : Nat) :
    Covers (· = origin) g.Calls depth (depth + left) Visit.node Visit.depth
        ((levels left depth seen level).eval g.answers) ∧
      ∀ v ∈ (levels left depth seen level).eval g.answers,
        g.CallPath origin v.depth v.node v.path := by
  induction left generalizing depth seen level with
  | zero =>
    have whole : (levels 0 depth seen level).eval g.answers = level := by
      cases level <;> rfl
    rw [whole]
    refine ⟨covers_frontier frontier, fun v member => ?_⟩
    rw [(frontier.sound v member).1]
    exact frontier.paths v member
  | succ left ih =>
    cases level with
    | nil =>
      refine ⟨covers_nil fun f distance => ?_, fun v member => nomatch member⟩
      obtain ⟨v, member, -⟩ := frontier.complete f distance
      cases member
    | cons first others =>
      obtain ⟨covers, paths⟩ := ih (frontier_next frontier)
      rw [eval_levels_succ]
      constructor
      · have reach : depth + 1 + left = depth + (left + 1) := by omega
        rw [reach] at covers
        exact covers_append (covers_frontier frontier) covers (Nat.le_refl _) (by omega)
      · intro v member
        rcases List.mem_append.mp member with here | later
        · rw [(frontier.sound v here).1]
          exact frontier.paths v here
        · exact paths v later

theorem covers_visits (present : g.function? origin.id = some origin) (maxDepth : Option Nat) :
    Covers (· = origin) g.Calls 0 (maxDepth.getD depthLimit) Visit.node Visit.depth
        ((visits origin maxDepth).eval g.answers) ∧
      ∀ v ∈ (visits origin maxDepth).eval g.answers, g.CallPath origin v.depth v.node v.path := by
  have all := covers_levels (frontier_origin present) (maxDepth.getD depthLimit)
  rwa [Nat.zero_add] at all

end Levels

end Forward

end DataReach
