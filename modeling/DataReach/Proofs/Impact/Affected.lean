import DataReach.Impact
import DataReach.Proofs.Reach.Backward
import DataReach.Proofs.Reach.Data
import DataReach.Proofs.Sorting
/-!
What a change affects is exact: the functions outside the change from which recorded callers lead
to it within the bound, each once, at its least depth and with a shortest chain, and the entry
points among these and the changed functions.
-/

namespace DataReach

namespace CallGraph

/-- `n` calls lead from `f` to a changed function: each function of the chain is among the recorded
callers of the next. -/
structure CallerChain (g : CallGraph) (changed : List FunctionNode) (n : Nat) (f : FunctionNode)
    (chain : List FunctionNode) : Prop where
  length : chain.length = n + 1
  first : chain.head? = some f
  last : ∃ c ∈ changed, chain.getLast? = some c
  linked : chain.IsChain fun x y => g.HasCaller y x

theorem climbs_unstopped (g : CallGraph) : g.Climbs (fun _ => false) = g.HasCaller := by
  funext f h
  simp [Climbs]

theorem callerChain_iff_walkOf {g : CallGraph} {changed : List FunctionNode} {n : Nat}
    {f : FunctionNode} {chain : List FunctionNode} :
    g.CallerChain changed n f chain ↔ WalkOf (· ∈ changed) g.HasCaller n f chain.reverse := by
  constructor
  · intro given
    rcases given with ⟨length, first, last, linked⟩
    refine ⟨?_, by simpa using first, by simpa using length, List.isChain_reverse.mpr linked⟩
    obtain ⟨c, member, last⟩ := last
    exact ⟨c, member, by simpa using last⟩
  · intro given
    rcases given with ⟨first, last, length, linked⟩
    refine ⟨by simpa using length, by simpa using last, ?_, List.isChain_reverse.mp linked⟩
    obtain ⟨c, member, first⟩ := first
    exact ⟨c, member, by simpa using first⟩

theorem exists_callerChain_iff_walk {g : CallGraph} {changed : List FunctionNode} {n : Nat}
    {f : FunctionNode} :
    (∃ chain, g.CallerChain changed n f chain) ↔ Walk (· ∈ changed) g.HasCaller n f := by
  constructor
  · intro given
    rcases given with ⟨chain, isChain⟩
    exact walkOf_walk (callerChain_iff_walkOf.mp isChain)
  · intro walk
    obtain ⟨items, isWalk⟩ := exists_walkOf walk
    exact ⟨items.reverse, callerChain_iff_walkOf.mpr (by simpa using isWalk)⟩

theorem callerChain_congr {g : CallGraph} {first second : List FunctionNode}
    (same : ∀ f, f ∈ first ↔ f ∈ second) : g.CallerChain first = g.CallerChain second := by
  funext n f chain
  apply propext
  rw [callerChain_iff_walkOf, callerChain_iff_walkOf, funext fun f => propext (same f)]

end CallGraph

namespace Impact

section Changed

variable {g : CallGraph} {changed : List FunctionNode}

theorem ids_distinctById (functions : List FunctionNode) :
    (distinctById functions).Pairwise fun a b => a.id < b.id := by
  have sorted := (mergeSort_sorted FunctionNode.id functions).sublist (distinctBy_sublist (·.id) _)
  have once := nodup_keys_distinctBy (fun f : FunctionNode => f.id)
    (functions.mergeSort FunctionNode.idLe)
  have differ := List.pairwise_map.mp once
  exact (sorted.and differ).imp fun ⟨le, ne⟩ => Std.lt_of_le_of_ne le ne

theorem mem_distinctById (present : ∀ f ∈ changed, g.function? f.id = some f) (f : FunctionNode) :
    f ∈ distinctById changed ↔ f ∈ changed := by
  have within : ∀ h ∈ distinctById changed, h ∈ changed := fun h member =>
    List.mem_mergeSort.mp ((distinctBy_sublist FunctionNode.id _).subset member)
  constructor
  · exact within f
  · intro member
    have sorted : f ∈ changed.mergeSort FunctionNode.idLe := List.mem_mergeSort.mpr member
    obtain ⟨h, kept, same⟩ := List.mem_map.mp (key_mem_distinctBy (·.id) sorted)
    have found := present h (within h kept)
    rw [same, present f member] at found
    exact Option.some.inj found ▸ kept

theorem nodup_distinctById (functions : List FunctionNode) : (distinctById functions).Nodup :=
  (ids_distinctById functions).imp fun lt same => String.ne_of_lt lt (congrArg FunctionNode.id same)

theorem covers_callersOf (present : ∀ f ∈ changed, g.function? f.id = some f)
    (distinct : changed.Nodup) (maxDepth : Option Nat) :
    Covers (· ∈ changed) g.HasCaller 1 (maxDepth.getD depthLimit) Caller.node Caller.depth
        ((callersOf changed maxDepth).eval g.answers) ∧
      ∀ r ∈ (callersOf changed maxDepth).eval g.answers,
        ∃ chain, g.CallerChain changed r.depth r.node chain ∧
          r.path = chain.map PathNode.ofFunction := by
  have climb := Backward.climb_exact (fun _ => false) maxDepth present distinct
  rw [CallGraph.climbs_unstopped] at climb
  simp only [callersOf, Inquiry.eval_bind, Inquiry.eval_pure]
  generalize (Backward.climb (fun _ => false) changed maxDepth).eval g.answers = result at climb
  constructor
  · exact covers_map _ (covers_beyond climb.1)
  · intro r member
    rcases List.mem_map.mp member with ⟨entry, kept, rfl⟩
    rcases climb.2 entry (List.mem_of_mem_filter kept) with ⟨items, walk, path⟩
    refine ⟨items.reverse, CallGraph.callerChain_iff_walkOf.mpr ?_, path⟩
    rwa [List.reverse_reverse]

theorem distance_iff_chain {n : Nat} {f : FunctionNode} :
    Distance (· ∈ changed) g.HasCaller n f ↔ (∃ chain, g.CallerChain changed n f chain) ∧
      ∀ m chain, g.CallerChain changed m f chain → n ≤ m := by
  constructor
  · intro given
    rcases given with ⟨walk, least⟩
    refine ⟨CallGraph.exists_callerChain_iff_walk.mpr walk, fun m chain isChain => ?_⟩
    exact least m (CallGraph.exists_callerChain_iff_walk.mp ⟨chain, isChain⟩)
  · intro given
    rcases given with ⟨some, least⟩
    refine ⟨CallGraph.exists_callerChain_iff_walk.mp some, fun m walk => ?_⟩
    rcases CallGraph.exists_callerChain_iff_walk.mpr walk with ⟨chain, isChain⟩
    exact least m chain isChain

theorem distance_within_iff {bound : Nat} {f : FunctionNode} :
    (∃ n, Distance (· ∈ changed) g.HasCaller n f ∧ 1 ≤ n ∧ n ≤ bound) ↔
      f ∉ changed ∧ ∃ n chain, 1 ≤ n ∧ n ≤ bound ∧ g.CallerChain changed n f chain := by
  constructor
  · intro given
    rcases given with ⟨n, distance, least, most⟩
    constructor
    · intro member
      have zero := distance.2 0 (.here member)
      omega
    · rcases (distance_iff_chain.mp distance).1 with ⟨chain, isChain⟩
      exact ⟨n, chain, least, most, isChain⟩
  · intro given
    rcases given with ⟨outside, n, chain, -, most, isChain⟩
    have walk := CallGraph.exists_callerChain_iff_walk.mp ⟨chain, isChain⟩
    rcases walk_distance walk with ⟨m, shorter, distance⟩
    refine ⟨m, distance, Nat.one_le_iff_ne_zero.mpr ?_, by omega⟩
    rintro rfl
    exact outside (distance_zero_iff.mp distance)

theorem function?_of_distance (present : ∀ f ∈ changed, g.function? f.id = some f) {n : Nat}
    {f : FunctionNode} (distance : Distance (· ∈ changed) g.HasCaller n f) :
    g.function? f.id = some f :=
  CallGraph.exists_of_walk present (fun _ _ => CallGraph.function?_of_hasCaller) distance.1

end Changed

end Impact

namespace AffectedFunction

def Before (a b : AffectedFunction) : Prop :=
  a.depth < b.depth ∨ a.depth = b.depth ∧ a.id < b.id

theorem le_iff (a b : AffectedFunction) :
    a.le b = true ↔ a.depth < b.depth ∨ a.depth = b.depth ∧ a.id ≤ b.id := by
  simp [le]

theorem le_of_before {a b : AffectedFunction} (before : a.Before b) : a.le b = true := by
  rw [le_iff]
  rcases before with less | ⟨same, less⟩
  · exact .inl less
  · exact .inr ⟨same, Std.le_of_lt less⟩

theorem le_trans (a b c : AffectedFunction) (first : a.le b = true) (second : b.le c = true) :
    a.le c = true := by
  rw [le_iff] at *
  rcases first with less | ⟨same, le⟩ <;> rcases second with less' | ⟨same', le'⟩
  · exact .inl (by omega)
  · exact .inl (by omega)
  · exact .inl (by omega)
  · exact .inr ⟨by omega, String.le_trans le le'⟩

theorem le_total (a b : AffectedFunction) : (a.le b || b.le a) = true := by
  rw [Bool.or_eq_true, le_iff, le_iff]
  rcases Nat.lt_trichotomy a.depth b.depth with less | same | more
  · exact .inl (.inl less)
  · rcases String.le_total a.id b.id with le | le
    · exact .inl (.inr ⟨same, le⟩)
    · exact .inr (.inr ⟨same.symm, le⟩)
  · exact .inr (.inl more)

theorem mergeSort_before {affected : List AffectedFunction}
    (once : ((affected.mergeSort le).map (·.id)).Nodup) :
    (affected.mergeSort le).Pairwise Before := by
  have sorted := List.pairwise_mergeSort le_trans le_total affected
  refine (sorted.and (List.pairwise_map.mp once)).imp fun ⟨ordered, ne⟩ => ?_
  rcases (le_iff _ _).mp ordered with less | ⟨same, le⟩
  · exact .inl less
  · exact .inr ⟨same, Std.lt_of_le_of_ne le ne⟩

end AffectedFunction

namespace Impact

section Report

variable (g : CallGraph) (c : Classifier) (maxDepth : Option Nat)

def reachesSensitive (f : FunctionNode) : Bool := !((hits c maxDepth f).eval g.answers).isEmpty

def describe (r : Caller) : AffectedFunction :=
  .ofFunction r.node r.depth (reachesSensitive g c maxDepth r.node) r.path

def describeChanged (f : FunctionNode) : AffectedFunction :=
  .ofFunction f 0 (reachesSensitive g c maxDepth f) [.ofFunction f]

theorem eval_hitsOfAll (functions : List FunctionNode) :
    (hitsOfAll c maxDepth functions).eval g.answers =
      functions.map fun f => (f, (hits c maxDepth f).eval g.answers) := by
  induction functions with
  | nil => rfl
  | cons f rest ih => simp [hitsOfAll, ih]

theorem eval_affectedOf (callers : List Caller) :
    (affectedOf c maxDepth callers).eval g.answers = callers.map (describe g c maxDepth) := by
  induction callers with
  | nil => rfl
  | cons r rest ih => simp [affectedOf, ih, describe, reachesSensitive]

def affectedBy (changed : List FunctionNode) : List AffectedFunction :=
  (((callersOf changed maxDepth).eval g.answers).map (describe g c maxDepth)).mergeSort
    AffectedFunction.le

def entriesInto (changed : List FunctionNode) : List AffectedFunction :=
  ((changed.filter (·.isEntryPoint)).map (describeChanged g c maxDepth) ++
    (affectedBy g c maxDepth changed).filter (·.isEntryPoint)).mergeSort AffectedFunction.le

theorem entryPointsOf_hits (changed : List FunctionNode) :
    entryPointsOf (changed.map fun f => (f, (hits c maxDepth f).eval g.answers))
      (affectedBy g c maxDepth changed) = entriesInto g c maxDepth changed := by
  simp only [entryPointsOf, entriesInto, List.filter_map, List.map_map]
  rfl

theorem affected_ofChanged (target : String) (changed : List FunctionNode) :
    ((ofChanged c maxDepth target changed).eval g.answers).affected =
      affectedBy g c maxDepth changed := by
  simp [ofChanged, eval_affectedOf, affectedBy]

theorem entryPoints_ofChanged (target : String) (changed : List FunctionNode) :
    ((ofChanged c maxDepth target changed).eval g.answers).entryPoints =
      entriesInto g c maxDepth changed := by
  simp [ofChanged, eval_affectedOf, eval_hitsOfAll, ← entryPointsOf_hits, affectedBy]

theorem eval_analyze (target : String) {changed : List FunctionNode} (nonempty : changed ≠ [])
    (present : ∀ f ∈ changed, g.function? f.id = some f) :
    (analyze c maxDepth target changed).eval g.answers =
      (ofChanged c maxDepth target (distinctById changed)).eval g.answers := by
  have built : g.functions.isEmpty = false := by
    rcases List.exists_mem_of_ne_nil changed nonempty with ⟨f, member⟩
    have held := Dict.mem_of_get? (present f member)
    simp [List.ne_nil_of_mem held]
  have some : changed.isEmpty = false := by simp [nonempty]
  simp [analyze, Inquiry.missing?, CallGraph.answers, built, some]

/-- The report lists what a change affects: the functions outside it from which a chain of callers
leads to it within the bound, each once, with a shortest such chain. -/
structure AffectedExact (changed : List FunctionNode) (r : Impact) : Prop where
  listed_iff : ∀ f, g.function? f.id = some f → ((∃ a ∈ r.affected, a.id = f.id) ↔
    f ∉ changed ∧ ∃ n chain, 1 ≤ n ∧ n ≤ maxDepth.getD depthLimit ∧
      g.CallerChain changed n f chain)
  /-- Without a bound it is the number of functions that keeps depths below the limit. -/
  unbounded : maxDepth = none → g.size ≤ depthLimit → ∀ f, g.function? f.id = some f →
    ((∃ a ∈ r.affected, a.id = f.id) ↔ f ∉ changed ∧ ∃ n chain, g.CallerChain changed n f chain)
  described : ∀ a ∈ r.affected, ∃ f chain, g.function? f.id = some f ∧
    a = .ofFunction f a.depth (reachesSensitive g c maxDepth f) (chain.map .ofFunction) ∧
    g.CallerChain changed a.depth f chain ∧
    ∀ n other, g.CallerChain changed n f other → a.depth ≤ n
  once : (r.affected.map (·.id)).Nodup
  sorted : r.affected.Pairwise AffectedFunction.Before
  entries : ∃ own : List FunctionNode, own.Pairwise (·.id < ·.id) ∧
    (∀ f, f ∈ own ↔ f ∈ changed ∧ f.isEntryPoint = true) ∧
    r.entryPoints = own.map (describeChanged g c maxDepth) ++ r.affected.filter (·.isEntryPoint)
  entriesOnce : (r.entryPoints.map (·.id)).Nodup

end Report

section Exact

variable {g : CallGraph} {c : Classifier} {maxDepth : Option Nat} {changed : List FunctionNode}

theorem affectedBy_perm : (affectedBy g c maxDepth changed).Perm
    (((callersOf changed maxDepth).eval g.answers).map (describe g c maxDepth)) :=
  List.mergeSort_perm _ _

theorem once_affectedBy (present : ∀ f ∈ changed, g.function? f.id = some f)
    (distinct : changed.Nodup) : ((affectedBy g c maxDepth changed).map (·.id)).Nodup := by
  have covers := (covers_callersOf present distinct maxDepth).1
  have ids := CallGraph.nodup_ids (g := g) ?_ covers.distinct
  · rw [(affectedBy_perm.map _).nodup_iff, List.map_map]
    rwa [List.map_map] at ids
  · intro f member
    rcases List.mem_map.mp member with ⟨r, found, rfl⟩
    exact function?_of_distance present (covers.sound r found).2.2

theorem sorted_affectedBy (present : ∀ f ∈ changed, g.function? f.id = some f)
    (distinct : changed.Nodup) :
    (affectedBy g c maxDepth changed).Pairwise AffectedFunction.Before :=
  AffectedFunction.mergeSort_before (once_affectedBy present distinct)

theorem affectedAt_iff (present : ∀ f ∈ changed, g.function? f.id = some f)
    (distinct : changed.Nodup) {f : FunctionNode} (found : g.function? f.id = some f) (n : Nat) :
    (∃ a ∈ affectedBy g c maxDepth changed, a.id = f.id ∧ a.depth = n) ↔
      Distance (· ∈ changed) g.HasCaller n f ∧ 1 ≤ n ∧ n ≤ maxDepth.getD depthLimit := by
  have covers := (covers_callersOf present distinct maxDepth).1
  rw [← covers_mem_iff covers n f]
  constructor
  · intro given
    obtain ⟨a, member, same, depth⟩ := given
    obtain ⟨r, caller, rfl⟩ := List.mem_map.mp (affectedBy_perm.mem_iff.mp member)
    have held := function?_of_distance present (covers.sound r caller).2.2
    exact ⟨r, caller, CallGraph.eq_of_id held found same, depth⟩
  · intro given
    obtain ⟨r, caller, rfl, depth⟩ := given
    exact ⟨_, affectedBy_perm.mem_iff.mpr (List.mem_map_of_mem caller), rfl, depth⟩

theorem mem_affectedBy_iff (present : ∀ f ∈ changed, g.function? f.id = some f)
    (distinct : changed.Nodup) {f : FunctionNode} (found : g.function? f.id = some f) :
    (∃ a ∈ affectedBy g c maxDepth changed, a.id = f.id) ↔
      ∃ n, Distance (· ∈ changed) g.HasCaller n f ∧ 1 ≤ n ∧ n ≤ maxDepth.getD depthLimit := by
  simp only [← affectedAt_iff (c := c) present distinct found]
  constructor
  · intro given
    obtain ⟨a, member, same⟩ := given
    exact ⟨a.depth, a, member, same, rfl⟩
  · intro given
    obtain ⟨n, a, member, same, -⟩ := given
    exact ⟨a, member, same⟩

theorem described_affectedBy (present : ∀ f ∈ changed, g.function? f.id = some f)
    (distinct : changed.Nodup) {a : AffectedFunction}
    (member : a ∈ affectedBy g c maxDepth changed) :
    ∃ f chain, g.function? f.id = some f ∧
      a = .ofFunction f a.depth (reachesSensitive g c maxDepth f) (chain.map .ofFunction) ∧
      g.CallerChain changed a.depth f chain ∧ 1 ≤ a.depth ∧
      ∀ n other, g.CallerChain changed n f other → a.depth ≤ n := by
  have exact := covers_callersOf present distinct maxDepth
  rcases List.mem_map.mp (affectedBy_perm.mem_iff.mp member) with ⟨r, caller, rfl⟩
  have bounds := exact.1.sound r caller
  rcases exact.2 r caller with ⟨chain, isChain, path⟩
  refine ⟨r.node, chain, function?_of_distance present bounds.2.2, ?_, isChain, bounds.1,
    (distance_iff_chain.mp bounds.2.2).2⟩
  rw [← path]
  rfl

/-- The changed entry points stand before the affected ones already, so sorting keeps them. -/
theorem entriesInto_eq (present : ∀ f ∈ changed, g.function? f.id = some f)
    (ascending : changed.Pairwise (·.id < ·.id)) (distinct : changed.Nodup) :
    entriesInto g c maxDepth changed =
      (changed.filter (·.isEntryPoint)).map (describeChanged g c maxDepth) ++
        (affectedBy g c maxDepth changed).filter (·.isEntryPoint) := by
  apply List.mergeSort_of_pairwise
  refine List.pairwise_append.mpr ⟨?_, ?_, ?_⟩
  · refine List.pairwise_map.mpr ((ascending.sublist List.filter_sublist).imp fun less => ?_)
    exact AffectedFunction.le_of_before (.inr ⟨rfl, less⟩)
  · have sorted : (affectedBy g c maxDepth changed).Pairwise AffectedFunction.Before :=
      sorted_affectedBy present distinct
    exact (sorted.sublist List.filter_sublist).imp AffectedFunction.le_of_before
  · intro own changedEntry a affectedEntry
    rcases List.mem_map.mp changedEntry with ⟨f, -, rfl⟩
    have member := List.mem_of_mem_filter affectedEntry
    rcases described_affectedBy present distinct member with ⟨_, _, _, _, _, least, _⟩
    exact AffectedFunction.le_of_before (.inl least)

theorem once_entriesInto (present : ∀ f ∈ changed, g.function? f.id = some f)
    (ascending : changed.Pairwise (·.id < ·.id)) (distinct : changed.Nodup) :
    ((entriesInto g c maxDepth changed).map (·.id)).Nodup := by
  rw [entriesInto_eq present ascending distinct, List.map_append, List.nodup_append]
  refine ⟨?_, ?_, ?_⟩
  · have ids := CallGraph.nodup_ids present distinct
    rw [List.map_map]
    exact ids.sublist (List.filter_sublist.map FunctionNode.id)
  · exact (once_affectedBy present distinct).sublist (List.filter_sublist.map _)
  · intro id changedId other affectedId same
    rcases List.mem_map.mp changedId with ⟨own, isOwn, rfl⟩
    rcases List.mem_map.mp isOwn with ⟨f, entry, rfl⟩
    rcases List.mem_map.mp affectedId with ⟨a, affectedEntry, rfl⟩
    have inside : f ∈ changed := List.mem_of_mem_filter entry
    have listed := (mem_affectedBy_iff present distinct (present f inside)).mp
      ⟨a, List.mem_of_mem_filter affectedEntry, same.symm⟩
    exact (distance_within_iff.mp listed).1 inside

theorem exact_ofChanged (target : String) (present : ∀ f ∈ changed, g.function? f.id = some f)
    (ascending : changed.Pairwise (·.id < ·.id)) (distinct : changed.Nodup) :
    AffectedExact g c maxDepth changed
      ((ofChanged c maxDepth target changed).eval g.answers) where
  listed_iff := by
    intro f found
    rw [affected_ofChanged, mem_affectedBy_iff present distinct found]
    exact distance_within_iff
  unbounded := by
    rintro rfl small f found
    rw [affected_ofChanged, mem_affectedBy_iff present distinct found, distance_within_iff]
    constructor
    · intro given
      rcases given with ⟨outside, n, chain, -, -, isChain⟩
      exact ⟨outside, n, chain, isChain⟩
    · intro given
      rcases given with ⟨outside, n, chain, isChain⟩
      have walk := CallGraph.exists_callerChain_iff_walk.mp ⟨chain, isChain⟩
      rcases walk_distance walk with ⟨m, -, distance⟩
      have bound := CallGraph.distance_lt_size present (fun _ _ => CallGraph.function?_of_hasCaller)
        distance
      refine distance_within_iff.mp ⟨m, distance, Nat.one_le_iff_ne_zero.mpr ?_, ?_⟩
      · rintro rfl
        exact outside (distance_zero_iff.mp distance)
      · exact Nat.le_trans (Nat.le_of_lt bound) small
  described := by
    intro a member
    rw [affected_ofChanged] at member
    rcases described_affectedBy present distinct member with
      ⟨f, chain, found, same, isChain, -, least⟩
    exact ⟨f, chain, found, same, isChain, least⟩
  once := by
    rw [affected_ofChanged]
    exact once_affectedBy present distinct
  sorted := by
    rw [affected_ofChanged]
    exact sorted_affectedBy present distinct
  entries := by
    rw [affected_ofChanged, entryPoints_ofChanged]
    refine ⟨changed.filter (·.isEntryPoint), ascending.sublist List.filter_sublist, ?_,
      entriesInto_eq present ascending distinct⟩
    intro f
    exact List.mem_filter
  entriesOnce := by
    rw [entryPoints_ofChanged]
    exact once_entriesInto present ascending distinct

theorem affectedExact_congr {other : List FunctionNode} {r : Impact}
    (exact : AffectedExact g c maxDepth changed r) (same : ∀ f, f ∈ changed ↔ f ∈ other) :
    AffectedExact g c maxDepth other r := by
  have chains : g.CallerChain changed = g.CallerChain other := CallGraph.callerChain_congr same
  rcases exact with ⟨listed, unbounded, described, once, sorted, entries, entriesOnce⟩
  simp only [chains, same] at listed unbounded described entries
  exact ⟨listed, unbounded, described, once, sorted, entries, entriesOnce⟩

/-- The affected set and the entry points, for any change made of functions of the graph. -/
theorem affected_exact (g : CallGraph) (c : Classifier) (maxDepth : Option Nat) (target : String)
    (changed : List FunctionNode) (nonempty : changed ≠ [])
    (present : ∀ f ∈ changed, g.function? f.id = some f) :
    AffectedExact g c maxDepth changed
      ((analyze c maxDepth target changed).eval g.answers) := by
  rw [eval_analyze g c maxDepth target nonempty present]
  have same := mem_distinctById present
  have held : ∀ f ∈ distinctById changed, g.function? f.id = some f := fun f member =>
    present f ((same f).mp member)
  exact affectedExact_congr
    (exact_ofChanged target held (ids_distinctById changed) (nodup_distinctById changed)) same

/-- The changed function calls itself, and is called back by one it calls. -/
theorem affected_exact_loop :
    [Reach.looping] ≠ [] ∧
      (∀ f ∈ [Reach.looping], Reach.loopGraph.function? f.id = some f) ∧
      AffectedExact Reach.loopGraph .standard none [Reach.looping]
        ((analyze .standard none "run" [Reach.looping]).eval Reach.loopGraph.answers) := by
  have nonempty : [Reach.looping] ≠ [] := by simp
  have present : ∀ f ∈ [Reach.looping], Reach.loopGraph.function? f.id = some f := by
    intro f member
    rw [List.mem_singleton.mp member]
    rfl
  exact ⟨nonempty, present, affected_exact _ _ _ _ _ nonempty present⟩

end Exact

end Impact

end DataReach
