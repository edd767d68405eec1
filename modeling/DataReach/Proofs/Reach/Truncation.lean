import DataReach.Proofs.Reach.Data
import DataReach.Proofs.Reach.Inverse
/-!
Searches with a bound on the depth beside searches with a greater one, or none. Level by level both
go the same way until the first one stops, so what it finds is what the other finds within its
bound, in the same order and by the same paths.
-/

namespace DataReach

/-! ### Levels -/

section Levels

variable {β : Type} {mark : β → Nat} {level deeper : List β} {depth bound : Nat}

theorem filter_level_append (here : ∀ b ∈ level, mark b = depth) (within : depth ≤ bound) :
    (level ++ deeper).filter (fun b => decide (mark b ≤ bound)) =
      level ++ deeper.filter fun b => decide (mark b ≤ bound) := by
  have whole : level.filter (fun b => decide (mark b ≤ bound)) = level := by
    refine List.filter_eq_self.mpr fun b member => decide_eq_true ?_
    rw [here b member]
    exact within
  rw [List.filter_append, whole]

theorem filter_deeper (beyond : ∀ b ∈ deeper, bound < mark b) :
    deeper.filter (fun b => decide (mark b ≤ bound)) = [] := by
  refine List.filter_eq_nil_iff.mpr fun b member near => ?_
  exact Nat.not_le_of_lt (beyond b member) (of_decide_eq_true near)

end Levels

/-! ### Forward -/

namespace Forward

variable {g : CallGraph}

theorem depth_of_mem_visits {depth : Nat} {entries : List (String × List PathNode)} :
    ∀ v ∈ entries.filterMap (visit? g depth), v.depth = depth := by
  intro v member
  obtain ⟨entry, -, made⟩ := List.mem_filterMap.mp member
  obtain ⟨f, -, rfl⟩ := Option.map_eq_some_iff.mp made
  rfl

theorem eval_levels_zero (depth : Nat) (seen : List String) (level : List Visit) :
    (levels 0 depth seen level).eval g.answers = level := by
  cases level <;> rfl

theorem depth_le_of_mem_levels {left depth : Nat} {seen : List String} {level : List Visit}
    (here : ∀ v ∈ level, v.depth = depth) :
    ∀ v ∈ (levels left depth seen level).eval g.answers, depth ≤ v.depth := by
  induction left generalizing depth seen level with
  | zero =>
    rw [eval_levels_zero]
    exact fun v member => Nat.le_of_eq (here v member).symm
  | succ left ih =>
    rw [eval_levels_succ]
    intro v member
    rcases List.mem_append.mp member with first | later
    · exact Nat.le_of_eq (here v first).symm
    · exact Nat.le_of_succ_le (ih depth_of_mem_visits v later)

theorem levels_truncate {left more depth : Nat} {seen : List String} {level : List Visit}
    (here : ∀ v ∈ level, v.depth = depth) (within : left ≤ more) :
    (levels left depth seen level).eval g.answers =
      ((levels more depth seen level).eval g.answers).filter
        fun v => decide (v.depth ≤ depth + left) := by
  induction left generalizing more depth seen level with
  | zero =>
    rw [Nat.add_zero]
    cases more with
    | zero =>
      rw [eval_levels_zero]
      exact (List.filter_eq_self.mpr fun v member => decide_eq_true (Nat.le_of_eq (here v member))).symm
    | succ more =>
      rw [eval_levels_zero, eval_levels_succ, filter_level_append here (Nat.le_refl _),
        filter_deeper, List.append_nil]
      exact fun v member => depth_le_of_mem_levels depth_of_mem_visits v member
  | succ left ih =>
    obtain ⟨more, rfl⟩ : ∃ k, more = k + 1 := ⟨more - 1, by omega⟩
    have reach : depth + (left + 1) = depth + 1 + left := by omega
    rw [eval_levels_succ, eval_levels_succ, filter_level_append here (by omega), reach]
    rw [← ih depth_of_mem_visits (Nat.le_of_succ_le_succ within)]

theorem visits_truncate (origin : FunctionNode) {d : Nat} {m : Option Nat}
    (within : d ≤ m.getD depthLimit) :
    (visits origin (some d)).eval g.answers =
      ((visits origin m).eval g.answers).filter fun v => decide (v.depth ≤ d) := by
  have start : ∀ v ∈ [Visit.origin origin], v.depth = 0 := by simp [Visit.origin]
  have truncated : (visits origin (some d)).eval g.answers =
      ((visits origin m).eval g.answers).filter fun v => decide (v.depth ≤ 0 + d) :=
    levels_truncate start within
  rwa [Nat.zero_add] at truncated

end Forward

namespace Reach

variable {g : CallGraph} {c : Classifier} {o : ReachOptions} {d : Nat} {m : Option Nat}

/-- A bound on the depth of visits is one on the depth of accesses, whatever else is left out. -/
theorem accesses_truncate (origin : CodeLocation) (visits : List Visit) (d : Nat) :
    (ofVisits c o origin (visits.filter fun v => decide (v.depth ≤ d))).accesses =
      (ofVisits c o origin visits).accesses.filter fun a => decide (a.depth ≤ d) := by
  have all : (visits.filter fun v => decide (v.depth ≤ d)).flatMap (·.accesses o) =
      (visits.flatMap (·.accesses o)).filter fun a => decide (a.depth ≤ d) := by
    rw [List.filter_flatMap]
    induction visits with
    | nil => rfl
    | cons v rest ih =>
      have own : (v.accesses o).filter (fun a => decide (a.depth ≤ d)) =
          if v.depth ≤ d then v.accesses o else [] := by
        simp only [Visit.accesses, List.filter_map, Function.comp_def]
        split
        · next near => simp [near]
        · next far => simp [far]
      rw [List.flatMap_cons, own, ← ih]
      by_cases near : v.depth ≤ d
      · simp [near]
      · simp [near]
  simp only [ofVisits]
  split
  · rw [all, List.filter_comm]
  · exact all

theorem forward_truncate (within : d ≤ m.getD depthLimit) (id : String) :
    ((forward c { o with maxDepth := some d } id).eval g.answers).accesses =
      ((forward c { o with maxDepth := m } id).eval g.answers).accesses.filter
        fun a => decide (a.depth ≤ d) := by
  cases found : g.function? id with
  | none => simp [forward, CallGraph.answers, found]
  | some f =>
    rw [eval_forward g c _ found, eval_forward g c _ found, Forward.visits_truncate f within]
    exact accesses_truncate _ _ d

end Reach

/-! ### Backward -/

namespace Backward

variable {g : CallGraph} {stop : FunctionNode → Bool}

theorem eval_levels_zero (depth : Nat) (links : Links) (level : List FunctionNode) :
    (levels stop 0 depth links level).eval g.answers = ⟨links, level.map (·, depth)⟩ := by
  cases level <;> rfl

theorem eval_levels_succ (left depth : Nat) (links : Links) (level : List FunctionNode) :
    (levels stop (left + 1) depth links level).eval g.answers =
      let next := (callersOfAll stop links level).eval g.answers
      let rest := (levels stop left (depth + 1) next.1 next.2).eval g.answers
      ⟨rest.links, level.map (·, depth) ++ rest.found⟩ := by
  cases level with
  | nil =>
    have none : ∀ left, (levels stop left (depth + 1) links []).eval g.answers = ⟨links, []⟩ := by
      intro left
      cases left <;> rfl
    simp only [callersOfAll, Inquiry.eval_pure, none]
    rfl
  | cons first others => simp only [levels, Inquiry.eval_bind, Inquiry.eval_pure]

theorem depth_le_of_mem_levels {left depth : Nat} {links : Links} {level : List FunctionNode} :
    ∀ e ∈ ((levels stop left depth links level).eval g.answers).found, depth ≤ e.2 := by
  have here : ∀ e ∈ level.map (·, depth), depth ≤ e.2 := by simp
  induction left generalizing depth links level with
  | zero => rwa [eval_levels_zero]
  | succ left ih =>
    rw [eval_levels_succ]
    intro e member
    rcases List.mem_append.mp member with first | later
    · exact here e first
    · exact Nat.le_of_succ_le (ih (by simp) e later)

theorem found_truncate {left more depth : Nat} {links : Links} {level : List FunctionNode}
    (within : left ≤ more) :
    ((levels stop left depth links level).eval g.answers).found =
      ((levels stop more depth links level).eval g.answers).found.filter
        fun e => decide (e.2 ≤ depth + left) := by
  have here : ∀ e ∈ level.map (·, depth), e.2 = depth := by simp
  induction left generalizing more depth links level with
  | zero =>
    rw [Nat.add_zero]
    cases more with
    | zero =>
      rw [eval_levels_zero]
      exact (List.filter_eq_self.mpr fun e member => decide_eq_true (Nat.le_of_eq (here e member))).symm
    | succ more =>
      rw [eval_levels_zero, eval_levels_succ, filter_level_append here (Nat.le_refl _),
        filter_deeper, List.append_nil]
      exact fun e member => depth_le_of_mem_levels e member
  | succ left ih =>
    obtain ⟨more, rfl⟩ : ∃ k, more = k + 1 := ⟨more - 1, by omega⟩
    have reach : depth + (left + 1) = depth + 1 + left := by omega
    rw [eval_levels_succ, eval_levels_succ, filter_level_append here (by omega), reach]
    rw [← ih (Nat.le_of_succ_le_succ within) (by simp)]

theorem links_levels {left depth : Nat} {links : Links} {level : List FunctionNode} {id : String}
    {entry : PathNode × Option String} (known : links.get? id = some entry) :
    ((levels stop left depth links level).eval g.answers).links.get? id = some entry := by
  induction left generalizing depth links level with
  | zero => rwa [eval_levels_zero]
  | succ left ih =>
    rw [eval_levels_succ]
    exact ih ((grown_callersOfAll stop links level).kept id entry known)

theorem links_truncate {left more depth : Nat} {links : Links} {level : List FunctionNode}
    (within : left ≤ more) {id : String} {entry : PathNode × Option String}
    (known : ((levels stop left depth links level).eval g.answers).links.get? id = some entry) :
    ((levels stop more depth links level).eval g.answers).links.get? id = some entry := by
  induction left generalizing more depth links level with
  | zero =>
    rw [eval_levels_zero] at known
    exact links_levels known
  | succ left ih =>
    obtain ⟨more, rfl⟩ : ∃ k, more = k + 1 := ⟨more - 1, by omega⟩
    rw [eval_levels_succ] at known ⊢
    exact ih (Nat.le_of_succ_le_succ within) known

section Unwind

variable {seeds : List FunctionNode} {links more : Links} {n : Nat} {f : FunctionNode}

theorem unwindFrom_congr
    (linked : ∀ m f, m ≤ n → ClimbDistance g stop seeds m f → Linked g stop seeds links m f)
    (kept : ∀ id entry, links.get? id = some entry → more.get? id = some entry)
    (distance : ClimbDistance g stop seeds n f) {steps steps' : Nat} (enough : n < steps)
    (enough' : n < steps') : links.unwindFrom steps f.id = more.unwindFrom steps' f.id := by
  induction n generalizing f steps steps' with
  | zero =>
    obtain ⟨rest, rfl⟩ : ∃ k, steps = k + 1 := ⟨steps - 1, by omega⟩
    obtain ⟨rest', rfl⟩ : ∃ k, steps' = k + 1 := ⟨steps' - 1, by omega⟩
    have entry : links.get? f.id = some (.ofFunction f, none) :=
      linked 0 f (Nat.le_refl 0) distance
    simp only [Links.unwindFrom, entry, kept _ _ entry]
  | succ n ih =>
    obtain ⟨rest, rfl⟩ : ∃ k, steps = k + 1 := ⟨steps - 1, by omega⟩
    obtain ⟨rest', rfl⟩ : ∃ k, steps' = k + 1 := ⟨steps' - 1, by omega⟩
    obtain ⟨h, nearer, -, entry⟩ := linked (n + 1) f (Nat.le_refl _) distance
    have tail := ih (fun m k bound => linked m k (by omega)) nearer
      (Nat.lt_of_succ_lt_succ enough) (Nat.lt_of_succ_lt_succ enough')
    simp only [Links.unwindFrom, entry, kept _ _ entry, tail]

theorem climb_truncate (stop : FunctionNode → Bool)
    (present : ∀ f ∈ seeds, g.function? f.id = some f) (distinct : seeds.Nodup) {d : Nat}
    {m : Option Nat} (within : d ≤ m.getD depthLimit) :
    ((climb stop seeds (some d)).eval g.answers).found =
        ((climb stop seeds m).eval g.answers).found.filter (fun e => decide (e.2 ≤ d)) ∧
      ∀ e ∈ ((climb stop seeds (some d)).eval g.answers).found,
        ((climb stop seeds (some d)).eval g.answers).links.unwind e.1.id =
          ((climb stop seeds m).eval g.answers).links.unwind e.1.id := by
  have found : ((climb stop seeds (some d)).eval g.answers).found =
      ((climb stop seeds m).eval g.answers).found.filter fun e => decide (e.2 ≤ 0 + d) :=
    found_truncate within
  rw [Nat.zero_add] at found
  refine ⟨found, fun e member => ?_⟩
  have start : Frontier g stop seeds 0 (.ofSeeds seeds) seeds := frontier_seeds present distinct
  have near := covers_levels present start d
  have far := covers_levels present start (m.getD depthLimit)
  rw [Nat.zero_add] at near far
  obtain ⟨-, bound, distance⟩ := near.1.sound e member
  -- Both searches have linked all functions up to the depth of the entry, so both unwind its way.
  have linked : ∀ m f, m ≤ e.2 → ClimbDistance g stop seeds m f → _ :=
    fun m f below => near.2 m f (by omega)
  have linked' : ∀ m f, m ≤ e.2 → ClimbDistance g stop seeds m f → _ :=
    fun m f below => far.2 m f (by omega)
  exact unwindFrom_congr linked (fun _ _ => links_truncate within) distance
    (lt_length_of_linked present linked distance) (lt_length_of_linked present linked' distance)

end Unwind

end Backward

/-! ### Inverse -/

namespace InverseReach

variable {g : CallGraph} {table : String} {field : Option String} {d : Nat} {m : Option Nat}

theorem offersFrom_truncate {f : FunctionNode} (present : g.function? f.id = some f)
    (within : d ≤ m.getD depthLimit) :
    offersFrom g table field (some d) f =
      (offersFrom g table field m f).filter fun p => decide (p.path.length ≤ d + 1) := by
  have held : ∀ h ∈ [f], g.function? h.id = some h := by simpa using present
  obtain ⟨found, unwound⟩ := Backward.climb_truncate (·.isEntryPoint) held
    (List.nodup_singleton f) within
  have ways := (Backward.climb_exact (·.isEntryPoint) m held (List.nodup_singleton f)).2
  rw [offersFrom, offersFrom]
  cases f.dataAccess.find? (·.matches table field) with
  | none => rfl
  | some access =>
    simp only
    generalize (Backward.climb (·.isEntryPoint) [f] (some d)).eval g.answers = near at found unwound ⊢
    generalize (Backward.climb (·.isEntryPoint) [f] m).eval g.answers = far at found unwound ways ⊢
    have length : ∀ e ∈ far.found, (far.links.unwind e.1.id).length = e.2 + 1 := by
      intro e member
      obtain ⟨items, walk, path⟩ := ways e member
      rw [path, List.length_map, List.length_reverse, walk.length]
    have same : near.found.filter (·.1.isEntryPoint) = (far.found.filter (·.1.isEntryPoint)).filter
        fun e => decide ((far.links.unwind e.1.id).length ≤ d + 1) := by
      rw [found, List.filter_filter, List.filter_filter]
      refine List.filter_congr fun e member => ?_
      rw [length e member, Bool.and_comm]
      simp only [Nat.add_le_add_iff_right]
    rw [List.filter_map, Function.comp_def, ← same]
    refine List.map_congr_left fun e member => ?_
    rw [unwound e (List.mem_of_mem_filter member)]

theorem offers_truncate (within : d ≤ m.getD depthLimit) :
    offers g table field (some d) =
      (offers g table field m).filter fun p => decide (p.path.length ≤ d + 1) := by
  rw [offers, offers, List.filter_flatMap]
  refine List.flatMap_congr fun f selected => ?_
  exact offersFrom_truncate (CallGraph.mem_select.mp selected).1 within

theorem paths_ascending : ((toData table field m).eval g.answers).paths.Pairwise
    (·.entryPoint < ·.entryPoint) :=
  List.pairwise_map.mp entryPoints_ascending

/-- Of the paths to the data the ones within the bound are kept. An entry point has but one path,
so the accessor that stands for it does not change. -/
theorem paths_truncate (within : d ≤ m.getD depthLimit) :
    ((toData table field (some d)).eval g.answers).paths =
      ((toData table field m).eval g.answers).paths.filter
        fun p => decide (p.path.length ≤ d + 1) := by
  have ascending : Std.Asymm fun p q : InversePath => p.entryPoint < q.entryPoint :=
    ⟨fun _ _ => String.lt_asymm⟩
  refine paths_ascending.eq_of_mem_iff (paths_ascending.filter _) fun p => ?_
  rw [List.mem_filter, paths_toData, paths_toData, List.mem_mergeSort, List.mem_mergeSort,
    offers_truncate within, Dict.mem_shortestOf_filter, decide_eq_true_eq]

end InverseReach

end DataReach
