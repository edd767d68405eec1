import DataReach.Reach.Backward
import DataReach.Proofs.Reach.Forward
/-!
The backward search is exact. From given functions it climbs along recorded callers and finds the
functions of each distance up to the bound, each once; the links it leaves unwind to a shortest way
back to where it began.
-/

namespace DataReach

namespace CallGraph

def HasCaller (g : CallGraph) (f h : FunctionNode) : Prop :=
  ∃ c ∈ f.calledBy, g.function? c.callerId = some h

/-- A step of a climb: it goes to the callers of `f`, unless it stops there. -/
def Climbs (g : CallGraph) (stop : FunctionNode → Bool) (f h : FunctionNode) : Prop :=
  stop f = false ∧ g.HasCaller f h

theorem function?_of_hasCaller {g : CallGraph} {f h : FunctionNode} (link : g.HasCaller f h) :
    g.function? h.id = some h := by
  obtain ⟨c, -, found⟩ := link
  rwa [id_of_function? found]

end CallGraph

namespace Backward

variable {g : CallGraph}

/-- What following steps does to the links of a search: nothing is lost, all that the steps lead to
is linked, and every function that is new is linked to one from which a step leads to it. -/
structure Grown (step : FunctionNode → FunctionNode → Prop) (links : Links)
    (result : Links × List FunctionNode) : Prop where
  kept : ∀ id entry, links.get? id = some entry → result.1.get? id = some entry
  fresh : ∀ h ∈ result.2, links.get? h.id = none
  linked : ∀ h ∈ result.2, ∃ f, step f h ∧
    result.1.get? h.id = some (.ofFunction h, some f.id)
  reached : ∀ f h, step f h → result.1.get? h.id ≠ none
  known : ∀ id, result.1.get? id ≠ none → links.get? id ≠ none ∨ ∃ h ∈ result.2, h.id = id
  distinct : result.2.Nodup

theorem grown_none {step : FunctionNode → FunctionNode → Prop} {links : Links}
    (reached : ∀ f h, step f h → links.get? h.id ≠ none) : Grown step links (links, []) where
  kept := fun _ _ found => found
  fresh := fun _ member => nomatch member
  linked := fun _ member => nomatch member
  reached := reached
  known := fun _ found => .inl found
  distinct := List.nodup_nil

theorem grown_one {step : FunctionNode → FunctionNode → Prop} {links : Links} {f h : FunctionNode}
    (link : step f h) (only : ∀ f k, step f k → k = h) (fresh : links.get? h.id = none) :
    Grown step links (links.insert h.id (.ofFunction h, some f.id), [h]) where
  kept := by
    intro id entry found
    have other : id ≠ h.id := by
      rintro rfl
      rw [fresh] at found
      cases found
    rw [Dict.get?_insert, if_neg other, found]
  fresh := fun k member => List.mem_singleton.mp member ▸ fresh
  linked := by
    intro k member
    rw [List.mem_singleton.mp member]
    exact ⟨f, link, by rw [Dict.get?_insert, if_pos rfl]⟩
  reached := by
    intro caller k link
    rw [only caller k link, Dict.get?_insert, if_pos rfl]
    exact Option.some_ne_none _
  known := by
    intro id present
    rw [Dict.get?_insert] at present
    split at present
    · next same => exact .inr ⟨h, List.mem_singleton_self h, same.symm⟩
    · exact .inl present
  distinct := List.nodup_singleton h

theorem grown_append {first second : FunctionNode → FunctionNode → Prop}
    {links middle last : Links} {found others : List FunctionNode}
    (early : Grown first links (middle, found)) (late : Grown second middle (last, others)) :
    Grown (fun f h => first f h ∨ second f h) links (last, found ++ others) where
  kept := fun id entry old => late.kept id entry (early.kept id entry old)
  fresh := by
    intro h member
    rcases List.mem_append.mp member with before | after
    · exact early.fresh h before
    · cases old : links.get? h.id with
      | none => rfl
      | some entry =>
        have still := early.kept h.id entry old
        exact absurd still (by simp [late.fresh h after])
  linked := by
    intro h member
    rcases List.mem_append.mp member with before | after
    · obtain ⟨f, link, entry⟩ := early.linked h before
      exact ⟨f, .inl link, late.kept _ _ entry⟩
    · obtain ⟨f, link, entry⟩ := late.linked h after
      exact ⟨f, .inr link, entry⟩
  reached := by
    rintro f h (link | link)
    · obtain ⟨entry, present⟩ := Option.ne_none_iff_exists'.mp (early.reached f h link)
      exact Option.ne_none_iff_exists'.mpr ⟨entry, late.kept _ _ present⟩
    · exact late.reached f h link
  known := by
    intro id present
    rcases late.known id present with old | ⟨h, after, same⟩
    · rcases early.known id old with older | ⟨h, before, same⟩
      · exact .inl older
      · exact .inr ⟨h, List.mem_append_left _ before, same⟩
    · exact .inr ⟨h, List.mem_append_right _ after, same⟩
  distinct := by
    refine List.nodup_append.mpr ⟨early.distinct, late.distinct, fun h before k after same => ?_⟩
    obtain ⟨f, -, entry⟩ := early.linked h before
    rw [same, late.fresh k after] at entry
    cases entry

theorem grown_congr {first second : FunctionNode → FunctionNode → Prop} {links : Links}
    {result : Links × List FunctionNode} (grown : Grown first links result)
    (same : ∀ f h, first f h ↔ second f h) : Grown second links result := by
  have equal : first = second := funext fun f => funext fun h => propext (same f h)
  exact equal ▸ grown

theorem grown_callers (f : FunctionNode) (links : Links) (refs : List CallerRef) :
    Grown (fun k h => k = f ∧ ∃ c ∈ refs, g.function? c.callerId = some h) links
      ((callers f links refs).eval g.answers) := by
  induction refs generalizing links with
  | nil => exact grown_none fun _ _ ⟨_, _, member, _⟩ => nomatch member
  | cons c rest ih =>
    -- The first reference adds at most one link; the others go on from there.
    have combine : ∀ middle found,
        Grown (fun k h => k = f ∧ g.function? c.callerId = some h) links (middle, found) →
        Grown (fun k h => k = f ∧ ∃ c' ∈ c :: rest, g.function? c'.callerId = some h) links
          (((callers f middle rest).eval g.answers).1,
            found ++ ((callers f middle rest).eval g.answers).2) := by
      intro middle found one
      refine grown_congr (grown_append one (ih middle)) fun k h => ?_
      simp only [List.mem_cons, exists_eq_or_imp, ← and_or_left]
    by_cases old : links.contains c.callerId
    · have skipped := combine links [] (grown_none fun k h ⟨_, found⟩ => ?_)
      · simpa only [callers, old, if_true, List.nil_append] using skipped
      · rw [CallGraph.id_of_function? found]
        exact Option.isSome_iff_ne_none.mp old
    · have fresh : links.get? c.callerId = none := by
        rwa [Dict.contains, Option.not_isSome_iff_eq_none] at old
      cases known : g.function? c.callerId with
      | none =>
        have skipped := combine links [] (grown_none fun k h ⟨_, found⟩ => ?_)
        · simpa only [callers, old, Bool.false_eq_true, if_false, Inquiry.eval_bind,
            Inquiry.eval_function, CallGraph.answers, known, List.nil_append] using skipped
        · rw [known] at found
          cases found
      | some h =>
        have same := CallGraph.id_of_function? known
        have added := combine _ [h] (grown_one ⟨rfl, known⟩ (fun _ k ⟨_, found⟩ => ?_)
          (same ▸ fresh))
        · rw [same] at added
          simpa only [callers, old, Bool.false_eq_true, if_false, Inquiry.eval_bind,
            Inquiry.eval_function, CallGraph.answers, known, Inquiry.eval_pure,
            List.singleton_append] using added
        · rw [known] at found
          exact (Option.some.inj found).symm

theorem grown_callersOfAll (stop : FunctionNode → Bool) (links : Links)
    (level : List FunctionNode) :
    Grown (fun f h => f ∈ level ∧ g.Climbs stop f h) links
      ((callersOfAll stop links level).eval g.answers) := by
  induction level generalizing links with
  | nil => exact grown_none fun _ _ ⟨member, _⟩ => nomatch member
  | cons f rest ih =>
    by_cases stopped : stop f
    · simp only [callersOfAll, stopped, if_true]
      refine grown_congr (ih links) fun k h => ?_
      constructor
      · intro given
        rcases given with ⟨member, link⟩
        exact ⟨List.mem_cons_of_mem _ member, link⟩
      · intro given
        rcases given with ⟨member, link⟩
        rcases List.mem_cons.mp member with rfl | member
        · exact absurd link.1 (by simp [stopped])
        · exact ⟨member, link⟩
    · simp only [callersOfAll, stopped, Bool.false_eq_true, if_false, Inquiry.eval_bind,
        Inquiry.eval_pure]
      refine grown_congr (grown_append (grown_callers f links f.calledBy) (ih _)) fun k h => ?_
      constructor
      · intro given
        rcases given with ⟨rfl, link⟩ | ⟨member, link⟩
        · exact ⟨List.mem_cons_self .., by simpa using stopped, link⟩
        · exact ⟨List.mem_cons_of_mem _ member, link⟩
      · intro given
        rcases given with ⟨member, link⟩
        rcases List.mem_cons.mp member with rfl | member
        · exact .inl ⟨rfl, link.2⟩
        · exact .inr ⟨member, link⟩

section Levels

variable {stop : FunctionNode → Bool} {seeds : List FunctionNode}

abbrev ClimbDistance (g : CallGraph) (stop : FunctionNode → Bool) (seeds : List FunctionNode)
    (n : Nat) (f : FunctionNode) : Prop :=
  Distance (· ∈ seeds) (g.Climbs stop) n f

/-- A seed has a link that ends there, any other function one to a function nearer by one. -/
def Linked (g : CallGraph) (stop : FunctionNode → Bool) (seeds : List FunctionNode)
    (links : Links) (n : Nat) (f : FunctionNode) : Prop :=
  match n with
  | 0 => links.get? f.id = some (.ofFunction f, none)
  | m + 1 => ∃ h, ClimbDistance g stop seeds m h ∧ g.Climbs stop h f ∧
      links.get? f.id = some (.ofFunction f, some h.id)

theorem linked_kept {links more : Links} {n : Nat} {f : FunctionNode}
    (linked : Linked g stop seeds links n f)
    (kept : ∀ id entry, links.get? id = some entry → more.get? id = some entry) :
    Linked g stop seeds more n f := by
  cases n with
  | zero => exact kept _ _ linked
  | succ m =>
    obtain ⟨h, distance, link, entry⟩ := linked
    exact ⟨h, distance, link, kept _ _ entry⟩

theorem linked_ne_none {links : Links} {n : Nat} {f : FunctionNode}
    (linked : Linked g stop seeds links n f) : links.get? f.id ≠ none := by
  cases n with
  | zero => simp [show links.get? f.id = _ from linked]
  | succ m =>
    obtain ⟨h, -, -, entry⟩ := linked
    simp [entry]

/-- The search has come to the functions at a depth, and has linked those no further away. -/
structure Frontier (g : CallGraph) (stop : FunctionNode → Bool) (seeds : List FunctionNode)
    (depth : Nat) (links : Links) (level : List FunctionNode) : Prop where
  mem_iff : ∀ f, f ∈ level ↔ ClimbDistance g stop seeds depth f
  distinct : level.Nodup
  linked : ∀ m f, m ≤ depth → ClimbDistance g stop seeds m f → Linked g stop seeds links m f
  known : ∀ id, links.get? id ≠ none →
    ∃ m f, m ≤ depth ∧ ClimbDistance g stop seeds m f ∧ f.id = id

theorem climb_unique (present : ∀ f ∈ seeds, g.function? f.id = some f) {n m : Nat}
    {f h : FunctionNode} (first : ClimbDistance g stop seeds n f)
    (second : ClimbDistance g stop seeds m h) (same : f.id = h.id) : f = h := by
  have steps : ∀ f h, g.Climbs stop f h → g.function? h.id = some h :=
    fun _ _ link => CallGraph.function?_of_hasCaller link.2
  have found := CallGraph.exists_of_walk present steps first.1
  rw [same, CallGraph.exists_of_walk present steps second.1] at found
  exact (Option.some.inj found).symm

theorem get?_ofSeeds_from (links : Links) (functions : List FunctionNode) (id : String)
    (once : (functions.map (·.id)).Nodup) :
    (functions.foldl (fun links f => links.insert f.id (PathNode.ofFunction f, none)) links).get? id
      = match functions.find? (·.id == id) with
        | some f => some (.ofFunction f, none)
        | none => links.get? id := by
  induction functions generalizing links with
  | nil => rfl
  | cons f rest ih =>
    obtain ⟨fresh, once⟩ := List.nodup_cons.mp once
    rw [List.foldl_cons, ih _ once]
    by_cases here : f.id = id
    · have absent : rest.find? (·.id == id) = none := by
        rw [List.find?_eq_none]
        intro h member same
        exact fresh (List.mem_map.mpr ⟨h, member, (beq_iff_eq.mp same).trans here.symm⟩)
      rw [absent, List.find?_cons_of_pos (by simp [here])]
      simp only [Dict.get?_insert, here, if_true]
    · have other : id ≠ f.id := Ne.symm here
      rw [List.find?_cons_of_neg (by simp [here])]
      simp only [Dict.get?_insert, other, if_false]

theorem frontier_seeds (present : ∀ f ∈ seeds, g.function? f.id = some f)
    (distinct : seeds.Nodup) : Frontier g stop seeds 0 (.ofSeeds seeds) seeds := by
  have once := CallGraph.nodup_ids present distinct
  refine ⟨fun f => distance_zero_iff.symm, distinct, ?_, ?_⟩
  · intro m f bound distance
    obtain rfl : m = 0 := by omega
    have seed : f ∈ seeds := distance_zero_iff.mp distance
    have found : seeds.find? (·.id == f.id) = some f := by
      cases search : seeds.find? (·.id == f.id) with
      | none =>
        exact absurd (List.find?_eq_none.mp search f seed) (by simp)
      | some h =>
        have same : h.id = f.id := by simpa using List.find?_some search
        have known := present h (List.mem_of_find?_eq_some search)
        rw [same, present f seed] at known
        exact known.symm
    simp only [Linked, Links.ofSeeds]
    rw [get?_ofSeeds_from [] seeds f.id once, found]
  · intro id found
    rw [Links.ofSeeds, get?_ofSeeds_from [] seeds id once] at found
    cases search : seeds.find? (·.id == id) with
    | none => simp [search] at found
    | some f =>
      have same : f.id = id := by simpa using List.find?_some search
      have seed := List.mem_of_find?_eq_some search
      exact ⟨0, f, Nat.le_refl 0, distance_zero_iff.mpr seed, same⟩

theorem frontier_next (present : ∀ f ∈ seeds, g.function? f.id = some f) {depth : Nat}
    {links : Links} {level : List FunctionNode} (frontier : Frontier g stop seeds depth links level)
    {result : Links × List FunctionNode}
    (grown : Grown (fun f h => f ∈ level ∧ g.Climbs stop f h) links result) :
    Frontier g stop seeds (depth + 1) result.1 result.2 := by
  have sound : ∀ h ∈ result.2, ClimbDistance g stop seeds (depth + 1) h := by
    intro h member
    obtain ⟨f, ⟨inLevel, link⟩, -⟩ := grown.linked h member
    refine distance_succ_iff.mpr ⟨⟨f, (frontier.mem_iff f).mp inLevel, link⟩, fun m bound near => ?_⟩
    exact linked_ne_none (frontier.linked m h bound near) (grown.fresh h member)
  have known : ∀ id, result.1.get? id ≠ none →
      ∃ m f, m ≤ depth + 1 ∧ ClimbDistance g stop seeds m f ∧ f.id = id := by
    intro id found
    rcases grown.known id found with old | ⟨h, member, same⟩
    · obtain ⟨m, f, bound, distance, same⟩ := frontier.known id old
      exact ⟨m, f, by omega, distance, same⟩
    · exact ⟨depth + 1, h, Nat.le_refl _, sound h member, same⟩
  have complete : ∀ h, ClimbDistance g stop seeds (depth + 1) h → h ∈ result.2 := by
    intro h distance
    obtain ⟨f, near, link⟩ := distance_before distance
    have found := grown.reached f h ⟨(frontier.mem_iff f).mpr near, link⟩
    rcases grown.known h.id found with old | ⟨k, member, same⟩
    · obtain ⟨m, k, bound, nearer, same⟩ := frontier.known h.id old
      have equal := climb_unique present nearer distance same
      have depths := distance_unique (equal ▸ nearer) distance
      omega
    · exact climb_unique present (sound k member) distance same ▸ member
  refine ⟨fun h => ⟨sound h, complete h⟩, grown.distinct, ?_, known⟩
  intro m f bound distance
  rcases Nat.lt_or_eq_of_le bound with below | rfl
  · exact linked_kept (frontier.linked m f (by omega) distance) grown.kept
  · obtain ⟨h, ⟨inLevel, link⟩, entry⟩ := grown.linked f (complete f distance)
    exact ⟨h, (frontier.mem_iff h).mp inLevel, link, entry⟩

theorem covers_frontier {depth : Nat} {links : Links} {level : List FunctionNode}
    (frontier : Frontier g stop seeds depth links level) :
    Covers (· ∈ seeds) (g.Climbs stop) depth depth Prod.fst Prod.snd (level.map (·, depth)) := by
  refine covers_level ?_ ?_ ?_
  · intro entry member
    obtain ⟨f, inLevel, rfl⟩ := List.mem_map.mp member
    exact ⟨rfl, (frontier.mem_iff f).mp inLevel⟩
  · intro f distance
    exact ⟨(f, depth), List.mem_map_of_mem ((frontier.mem_iff f).mpr distance), rfl⟩
  · rw [List.map_map]
    have same : (Prod.fst ∘ fun f : FunctionNode => (f, depth)) = id := rfl
    rw [same, List.map_id]
    exact frontier.distinct

/-- The levels cover all distances from that of the first one on, as many as are allowed, and all
that is found is linked. -/
theorem covers_levels (present : ∀ f ∈ seeds, g.function? f.id = some f) {depth : Nat}
    {links : Links} {level : List FunctionNode}
    (frontier : Frontier g stop seeds depth links level) (left : Nat) :
    Covers (· ∈ seeds) (g.Climbs stop) depth (depth + left) Prod.fst Prod.snd
        ((levels stop left depth links level).eval g.answers).found ∧
      ∀ m f, m ≤ depth + left → ClimbDistance g stop seeds m f →
        Linked g stop seeds ((levels stop left depth links level).eval g.answers).links m f := by
  induction left generalizing depth links level with
  | zero =>
    have whole : (levels stop 0 depth links level).eval g.answers =
        ⟨links, level.map (·, depth)⟩ := by
      cases level <;> rfl
    rw [whole]
    exact ⟨covers_frontier frontier, frontier.linked⟩
  | succ left ih =>
    cases level with
    | nil =>
      have empty : ∀ f, ¬ ClimbDistance g stop seeds depth f := fun f distance =>
        nomatch (frontier.mem_iff f).mpr distance
      refine ⟨covers_nil empty, fun m f _ distance => ?_⟩
      rcases Nat.le_total m depth with near | far
      · exact frontier.linked m f near distance
      · obtain ⟨h, nearer⟩ := distance_below distance far
        exact absurd nearer (empty h)
    | cons first others =>
      have next := frontier_next present frontier
        (grown_callersOfAll stop links (first :: others))
      obtain ⟨covers, linked⟩ := ih next
      have reach : depth + 1 + left = depth + (left + 1) := by omega
      rw [reach] at covers linked
      simp only [levels, Inquiry.eval_bind, Inquiry.eval_pure]
      exact ⟨covers_append (covers_frontier frontier) covers (Nat.le_refl _) (by omega), linked⟩

theorem unwindFrom_walk {links : Links} {n : Nat} {f : FunctionNode}
    (linked : ∀ m f, m ≤ n → ClimbDistance g stop seeds m f → Linked g stop seeds links m f)
    (distance : ClimbDistance g stop seeds n f) (steps : Nat) (enough : n < steps) :
    ∃ items, WalkOf (· ∈ seeds) (g.Climbs stop) n f items ∧
      links.unwindFrom steps f.id = items.reverse.map PathNode.ofFunction := by
  induction n generalizing f steps with
  | zero =>
    obtain ⟨rest, rfl⟩ := Nat.exists_eq_succ_of_ne_zero (Nat.ne_of_gt enough)
    have entry : links.get? f.id = some (.ofFunction f, none) :=
      linked 0 f (Nat.le_refl 0) distance
    refine ⟨[f], walkOf_start (distance_zero_iff.mp distance), ?_⟩
    simp [Links.unwindFrom, entry]
  | succ n ih =>
    obtain ⟨rest, rfl⟩ := Nat.exists_eq_succ_of_ne_zero (Nat.ne_of_gt (Nat.lt_of_le_of_lt
      (Nat.zero_le _) enough))
    obtain ⟨h, nearer, link, entry⟩ := linked (n + 1) f (Nat.le_refl _) distance
    obtain ⟨items, walk, path⟩ := ih (fun m k bound => linked m k (by omega)) nearer rest (by omega)
    refine ⟨items ++ [f], walkOf_append walk link, ?_⟩
    simp [Links.unwindFrom, entry, path]

theorem lt_length_of_linked (present : ∀ f ∈ seeds, g.function? f.id = some f) {links : Links}
    {n : Nat} {f : FunctionNode}
    (linked : ∀ m f, m ≤ n → ClimbDistance g stop seeds m f → Linked g stop seeds links m f)
    (distance : ClimbDistance g stop seeds n f) : n < links.length := by
  have many := lt_length_of_distance FunctionNode.id links.keys distance
    (fun _ _ _ _ => climb_unique present) fun m h bound near => by
      have known := linked_ne_none (linked m h bound near)
      rwa [ne_eq, Dict.get?_eq_none_iff, not_not] at known
  rwa [Dict.keys, List.length_map] at many

theorem unwind_walk (present : ∀ f ∈ seeds, g.function? f.id = some f) {links : Links} {n : Nat}
    {f : FunctionNode}
    (linked : ∀ m f, m ≤ n → ClimbDistance g stop seeds m f → Linked g stop seeds links m f)
    (distance : ClimbDistance g stop seeds n f) :
    ∃ items, WalkOf (· ∈ seeds) (g.Climbs stop) n f items ∧
      links.unwind f.id = items.reverse.map PathNode.ofFunction := by
  exact unwindFrom_walk linked distance links.length (lt_length_of_linked present linked distance)

/-- A climb finds the functions of all distances up to the bound, and its links unwind to a shortest
walk from the seeds. -/
theorem climb_exact (stop : FunctionNode → Bool) (maxDepth : Option Nat)
    (present : ∀ f ∈ seeds, g.function? f.id = some f) (distinct : seeds.Nodup) :
    Covers (· ∈ seeds) (g.Climbs stop) 0 (maxDepth.getD depthLimit) Prod.fst Prod.snd
        ((climb stop seeds maxDepth).eval g.answers).found ∧
      ∀ entry ∈ ((climb stop seeds maxDepth).eval g.answers).found,
        ∃ items, WalkOf (· ∈ seeds) (g.Climbs stop) entry.2 entry.1 items ∧
          ((climb stop seeds maxDepth).eval g.answers).links.unwind entry.1.id =
            items.reverse.map PathNode.ofFunction := by
  have start : Frontier g stop seeds 0 (.ofSeeds seeds) seeds := frontier_seeds present distinct
  obtain ⟨covers, linked⟩ := covers_levels present start (maxDepth.getD depthLimit)
  rw [Nat.zero_add] at covers linked
  refine ⟨covers, fun entry member => ?_⟩
  obtain ⟨-, bound, distance⟩ := covers.sound entry member
  exact unwind_walk present (fun m f near => linked m f (by omega)) distance

end Levels

end Backward

end DataReach
