import Mathlib.Logic.Relation
import DataReach.Proofs.Reach.Queue
import DataReach.Proofs.Reach.Truncation
/-!
Links lead back. At any point of a backward search, not only when it is over, the way from a
function along its links has as many steps as the function is deep, ends at a start of the search
and comes to no function twice.
-/

namespace DataReach

namespace Links

variable {links more : Links} {id next : String} {path other : List PathNode}

/-- The steps along the links from an id as far as one that has no next. -/
inductive LeadsBack (links : Links) : String → List PathNode → Prop
  | ends {id : String} {node : PathNode} (last : links.get? id = some (node, none)) :
    LeadsBack links id [node]
  | goesOn {id next : String} {node : PathNode} {path : List PathNode}
    (link : links.get? id = some (node, some next)) (others : LeadsBack links next path) :
    LeadsBack links id (node :: path)

def Next (links : Links) (id next : String) : Prop :=
  ∃ node, links.get? id = some (node, some next)

def Named (links : Links) : Prop :=
  ∀ id entry, links.get? id = some entry → entry.1.functionId = id

def Kept (links more : Links) : Prop :=
  ∀ id entry, links.get? id = some entry → more.get? id = some entry

namespace LeadsBack

theorem unique (first : links.LeadsBack id path) (second : links.LeadsBack id other) :
    path = other := by
  induction first generalizing other with
  | ends last =>
    cases second with
    | ends again =>
      rw [last] at again
      cases again
      rfl
    | goesOn link _ =>
      rw [last] at link
      cases link
  | goesOn link _ ih =>
    cases second with
    | ends last =>
      rw [link] at last
      cases last
    | goesOn again others =>
      rw [link] at again
      cases again
      rw [ih others]

theorem kept (back : links.LeadsBack id path) (kept : links.Kept more) :
    more.LeadsBack id path := by
  induction back with
  | ends last => exact .ends (kept _ _ last)
  | goesOn link _ ih => exact .goesOn (kept _ _ link) ih

theorem of_next (back : links.LeadsBack id path) (link : links.Next id next) :
    ∃ node tail, path = node :: tail ∧ links.LeadsBack next tail := by
  obtain ⟨node, entry⟩ := link
  cases back with
  | ends last =>
    rw [entry] at last
    cases last
  | goesOn again others =>
    rw [entry] at again
    cases again
    exact ⟨_, _, rfl, others⟩

theorem getLast? (back : links.LeadsBack id path) :
    ∃ last node, links.get? last = some (node, none) ∧ path.getLast? = some node := by
  induction back with
  | ends last => exact ⟨_, _, last, rfl⟩
  | goesOn _ others ih =>
    obtain ⟨last, node, entry, same⟩ := ih
    refine ⟨last, node, entry, ?_⟩
    rw [List.getLast?_cons, same]
    rfl

theorem unwindFrom (back : links.LeadsBack id path) {steps : Nat} (enough : path.length ≤ steps) :
    links.unwindFrom steps id = path := by
  induction back generalizing steps with
  | ends last =>
    obtain ⟨rest, rfl⟩ : ∃ rest, steps = rest + 1 := ⟨steps - 1, by simp at enough; omega⟩
    simp only [Links.unwindFrom, last]
  | goesOn link _ ih =>
    rw [List.length_cons] at enough
    obtain ⟨rest, rfl⟩ : ∃ rest, steps = rest + 1 := ⟨steps - 1, by omega⟩
    simp only [Links.unwindFrom, link, ih (Nat.le_of_succ_le_succ enough)]

theorem of_mem (back : links.LeadsBack id path) (named : links.Named) {node : PathNode}
    (member : node ∈ path) :
    ∃ tail, links.LeadsBack node.functionId tail ∧ tail.length ≤ path.length := by
  induction back with
  | ends last =>
    rw [List.mem_singleton.mp member, named _ _ last]
    exact ⟨_, .ends last, Nat.le_refl _⟩
  | goesOn link others ih =>
    rcases List.mem_cons.mp member with rfl | later
    · rw [named _ _ link]
      exact ⟨_, .goesOn link others, Nat.le_refl _⟩
    · obtain ⟨tail, back, shorter⟩ := ih later
      exact ⟨tail, back, Nat.le_succ_of_le shorter⟩

theorem nodup (back : links.LeadsBack id path) (named : links.Named) :
    (path.map (·.functionId)).Nodup := by
  induction back with
  | ends last => exact List.nodup_singleton _
  | goesOn link others ih =>
    refine List.nodup_cons.mpr ⟨fun again => ?_, ih⟩
    obtain ⟨node, member, same⟩ := List.mem_map.mp again
    obtain ⟨tail, back, shorter⟩ := others.of_mem named member
    have here : node.functionId = _ := same.trans (named _ _ link)
    have whole := (here ▸ back).unique (.goesOn link others)
    rw [whole, List.length_cons] at shorter
    omega

theorem length_le (back : links.LeadsBack id path) (named : links.Named) :
    path.length ≤ links.length := by
  have linked : path.map (·.functionId) ⊆ links.keys := by
    intro id member
    obtain ⟨node, inPath, rfl⟩ := List.mem_map.mp member
    obtain ⟨tail, back, -⟩ := back.of_mem named inPath
    by_contra absent
    have none := (Dict.get?_eq_none_iff links _).mpr absent
    cases back with
    | ends last => rw [none] at last; cases last
    | goesOn link _ => rw [none] at link; cases link
  have short := (List.subperm_of_subset (back.nodup named) linked).length_le
  rwa [List.length_map, Dict.keys, List.length_map] at short

theorem unwind (back : links.LeadsBack id path) (named : links.Named) : links.unwind id = path :=
  back.unwindFrom (back.length_le named)

theorem shorter (back : links.LeadsBack id path) (way : Relation.TransGen links.Next id next) :
    ∃ tail, links.LeadsBack next tail ∧ tail.length < path.length := by
  induction way with
  | single link =>
    obtain ⟨node, tail, rfl, others⟩ := back.of_next link
    exact ⟨tail, others, Nat.lt_succ_self _⟩
  | tail _ link ih =>
    obtain ⟨before, there, less⟩ := ih
    obtain ⟨node, tail, rfl, others⟩ := there.of_next link
    exact ⟨tail, others, Nat.lt_of_succ_lt less⟩

theorem not_cycle (back : links.LeadsBack id path) : ¬ Relation.TransGen links.Next id id := by
  intro cycle
  obtain ⟨tail, again, less⟩ := back.shorter cycle
  rw [again.unique back] at less
  exact Nat.lt_irrefl _ less

end LeadsBack

theorem kept_insert (added : PathNode × Option String) (fresh : links.get? id = none) :
    links.Kept (links.insert id added) := by
  intro known entry found
  have other : known ≠ id := by
    rintro rfl
    rw [fresh] at found
    cases found
  rw [Dict.get?_insert, if_neg other, found]

theorem Named.insert (named : links.Named) (h : FunctionNode) (next : Option String) :
    Named (links.insert h.id (.ofFunction h, next)) := by
  intro id entry found
  rw [Dict.get?_insert] at found
  split at found
  · next same =>
    cases found
    exact same.symm
  · exact named id entry found

theorem get?_ofSeeds (seeds : List FunctionNode) (id : String) : (ofSeeds seeds).get? id =
    (seeds.reverse.find? (·.id == id)).map fun f => (PathNode.ofFunction f, none) := by
  induction seeds using List.reverseRecOn with
  | nil => rfl
  | append_singleton rest f ih =>
    rw [ofSeeds] at ih ⊢
    rw [List.foldl_append, List.foldl_cons, List.foldl_nil, Dict.get?_insert, ih,
      List.reverse_append, List.reverse_singleton, List.singleton_append]
    by_cases here : f.id = id
    · rw [if_pos here.symm, List.find?_cons_of_pos (by simpa using here), Option.map_some]
    · rw [if_neg (Ne.symm here), List.find?_cons_of_neg (by simpa using here)]

theorem exists_of_ofSeeds {seeds : List FunctionNode} {entry : PathNode × Option String}
    (found : (ofSeeds seeds).get? id = some entry) :
    ∃ f ∈ seeds, f.id = id ∧ entry = (.ofFunction f, none) := by
  rw [get?_ofSeeds] at found
  obtain ⟨f, search, rfl⟩ := Option.map_eq_some_iff.mp found
  have seed := List.mem_reverse.mp (List.mem_of_find?_eq_some search)
  exact ⟨f, seed, by simpa using List.find?_some search, rfl⟩

theorem ofSeeds_ne_none {seeds : List FunctionNode} {f : FunctionNode} (seed : f ∈ seeds) :
    (ofSeeds seeds).get? f.id ≠ none := by
  intro none
  rw [get?_ofSeeds, Option.map_eq_none_iff, List.find?_eq_none] at none
  exact none f (List.mem_reverse.mpr seed) (beq_self_eq_true _)

end Links

namespace Backward

/-! ### The search with a queue -/

section Search

variable {g : CallGraph} {stop : FunctionNode → Bool} {seeds : List FunctionNode}

def exploration (g : CallGraph) (stop : FunctionNode → Bool) :
    Exploration Links FunctionNode CallerRef where
  edges f := if stop f then [] else f.calledBy
  follow links f c :=
    if links.contains c.callerId then (links, none)
    else
      match g.function? c.callerId with
      | none => (links, none)
      | some h => (links.insert c.callerId (.ofFunction h, some f.id), some h)

theorem follow_cases (g : CallGraph) (stop : FunctionNode → Bool) (links : Links)
    (f : FunctionNode) (c : CallerRef) :
    (exploration g stop).follow links f c = (links, none) ∨
      ∃ h, g.function? c.callerId = some h ∧ links.get? h.id = none ∧
        (exploration g stop).follow links f c =
          (links.insert h.id (.ofFunction h, some f.id), some h) := by
  simp only [exploration]
  split
  · exact .inl rfl
  · next fresh =>
    split
    · exact .inl rfl
    · next h found =>
      have same := CallGraph.id_of_function? found
      rw [Dict.contains, Option.not_isSome_iff_eq_none, ← same] at fresh
      exact .inr ⟨h, found, fresh, by rw [same]⟩

theorem eval_callers (stop : FunctionNode → Bool) (f : FunctionNode) (links : Links)
    (refs : List CallerRef) :
    (callers f links refs).eval g.answers = (exploration g stop).followAll f links refs := by
  induction refs generalizing links with
  | nil => rfl
  | cons c rest ih =>
    simp only [callers, Exploration.followAll, exploration] at ih ⊢
    split
    · rw [ih]
      rfl
    · simp only [Inquiry.eval_bind, Inquiry.eval_function, CallGraph.answers]
      cases g.function? c.callerId with
      | none =>
        rw [ih]
        rfl
      | some h =>
        simp only [Inquiry.eval_bind, Inquiry.eval_pure, ih]
        rfl

theorem eval_callersOfAll (links : Links) (level : List FunctionNode) :
    (callersOfAll stop links level).eval g.answers = (exploration g stop).expand links level := by
  induction level generalizing links with
  | nil => rfl
  | cons f rest ih =>
    by_cases stopped : stop f
    · simp only [callersOfAll, Exploration.expand, exploration, stopped, if_true] at ih ⊢
      exact ih links
    · have all : (exploration g stop).edges f = f.calledBy := if_neg stopped
      simp only [callersOfAll, Exploration.expand, stopped, Bool.false_eq_true, if_false,
        Inquiry.eval_bind, Inquiry.eval_pure, eval_callers stop, ih, all]

theorem eval_levels (left depth : Nat) (links : Links) (level : List FunctionNode) :
    (levels stop left depth links level).eval g.answers =
      ⟨((exploration g stop).levels left depth links level).1,
        ((exploration g stop).levels left depth links level).2⟩ := by
  induction left generalizing depth links level with
  | zero => exact eval_levels_zero ..
  | succ left ih =>
    simp only [eval_levels_succ, Exploration.levels, eval_callersOfAll, ih]

/-- The search under way, after so many steps. Without a bound it goes as deep as words count. -/
def search (g : CallGraph) (stop : FunctionNode → Bool) (seeds : List FunctionNode)
    (maxDepth : Option UInt32) (k : Nat) : Exploration.Stage Links FunctionNode CallerRef :=
  (exploration g stop).after (maxDepth.getD 0xFFFFFFFF) (.ofSeeds seeds) seeds k

theorem getD_depthLimit (maxDepth : Option UInt32) :
    (maxDepth.map UInt32.toNat).getD depthLimit = (maxDepth.getD 0xFFFFFFFF).toNat := by
  cases maxDepth <;> rfl

theorem eval_climb (stop : FunctionNode → Bool) (seeds : List FunctionNode)
    (maxDepth : Option UInt32) :
    let all := (exploration g stop).levels (maxDepth.getD 0xFFFFFFFF).toNat 0 (.ofSeeds seeds) seeds
    (climb stop seeds (maxDepth.map UInt32.toNat)).eval g.answers = ⟨all.1, all.2⟩ := by
  rw [climb, getD_depthLimit]
  exact eval_levels ..

/-! ### Ways back -/

/-- What has links is what was found, and from there the links lead back to a seed, in as many
steps as the function is deep. -/
structure Retraceable (seeds : List FunctionNode)
    (s : Exploration.Stage Links FunctionNode CallerRef) : Prop where
  named : s.memory.Named
  seeded : ∀ id node, s.memory.get? id = some (node, none) →
    ∃ f ∈ seeds, f.id = id ∧ node = .ofFunction f
  recorded : ∀ id, s.memory.get? id ≠ none ↔ ∃ e ∈ s.found, e.1.id = id
  back : ∀ e ∈ s.found, ∃ path, s.memory.LeadsBack e.1.id path ∧ path.length = e.2.toNat + 1
  queued : ∀ entry ∈ s.queue, (entry.1, entry.2.1) ∈ s.found

theorem retraceable_start :
    Retraceable seeds ((exploration g stop).start (.ofSeeds seeds) seeds) := by
  refine ⟨fun id entry found => ?_, fun id node found => ?_, fun id => ⟨fun found => ?_, ?_⟩,
    ?_, ?_⟩
  · obtain ⟨f, -, same, rfl⟩ := Links.exists_of_ofSeeds found
    exact same
  · obtain ⟨f, seed, same, equal⟩ := Links.exists_of_ofSeeds found
    exact ⟨f, seed, same, congrArg Prod.fst equal⟩
  · obtain ⟨entry, present⟩ := Option.ne_none_iff_exists'.mp found
    obtain ⟨f, seed, same, -⟩ := Links.exists_of_ofSeeds present
    exact ⟨(f, 0), List.mem_map_of_mem seed, same⟩
  · rintro ⟨e, member, rfl⟩
    obtain ⟨f, seed, rfl⟩ := List.mem_map.mp member
    exact Links.ofSeeds_ne_none seed
  · intro e member
    obtain ⟨f, seed, rfl⟩ := List.mem_map.mp member
    obtain ⟨entry, present⟩ := Option.ne_none_iff_exists'.mp (Links.ofSeeds_ne_none seed)
    obtain ⟨h, -, -, rfl⟩ := Links.exists_of_ofSeeds present
    exact ⟨_, .ends present, rfl⟩
  · intro entry member
    obtain ⟨e, found, rfl⟩ := List.mem_map.mp member
    exact found

theorem Retraceable.requeue {s : Exploration.Stage Links FunctionNode CallerRef}
    {queue : List (FunctionNode × UInt32 × List CallerRef)} {sums : List Nat}
    (ways : Retraceable seeds s) (held : ∀ entry ∈ queue, (entry.1, entry.2.1) ∈ s.found) :
    Retraceable seeds { s with queue := queue, sums := sums } :=
  ⟨ways.named, ways.seeded, ways.recorded, ways.back, held⟩

theorem Retraceable.add {s : Exploration.Stage Links FunctionNode CallerRef}
    {a h : FunctionNode} {depth deeper : UInt32} (ways : Retraceable seeds s)
    (here : (a, depth) ∈ s.found) (fresh : s.memory.get? h.id = none)
    (below : deeper.toNat = depth.toNat + 1) :
    Retraceable seeds { s with
      memory := s.memory.insert h.id (.ofFunction h, some a.id)
      found := s.found ++ [(h, deeper)] } := by
  have kept := Links.kept_insert (.ofFunction h, some a.id) fresh
  have new : (s.memory.insert h.id (.ofFunction h, some a.id)).get? h.id =
      some (.ofFunction h, some a.id) := by
    rw [Dict.get?_insert, if_pos rfl]
  refine ⟨ways.named.insert h _, fun id node found => ?_, fun id => ?_, fun e member => ?_,
    fun entry member => List.mem_append_left _ (ways.queued entry member)⟩
  · rw [Dict.get?_insert] at found
    split at found
    · cases found
    · exact ways.seeded id node found
  · rw [Dict.get?_insert]
    by_cases equal : id = h.id
    · simp [equal]
    · have differs : h.id ≠ id := Ne.symm equal
      simpa [equal, differs, or_and_right, exists_or] using ways.recorded id
  · rcases List.mem_append.mp member with old | added
    · obtain ⟨path, back, length⟩ := ways.back e old
      exact ⟨path, back.kept kept, length⟩
    · rw [List.mem_singleton.mp added]
      obtain ⟨path, back, length⟩ := ways.back (a, depth) here
      exact ⟨_, .goesOn new (back.kept kept), by rw [List.length_cons, length, below]⟩

theorem retraceable_followed {s : Exploration.Stage Links FunctionNode CallerRef}
    {a : FunctionNode} {depth bound : UInt32} {c : CallerRef} {edges : List CallerRef}
    {rest : List (FunctionNode × UInt32 × List CallerRef)} (ways : Retraceable seeds s)
    (front : s.queue = (a, depth, c :: edges) :: rest) (below : depth < bound) :
    Retraceable seeds ((exploration g stop).followed s a depth c edges rest) := by
  have here : (a, depth) ∈ s.found := ways.queued (a, depth, c :: edges) (by simp [front])
  have held : ∀ reached, ∀ entry ∈ (a, depth, edges) ::
      (rest ++ (exploration g stop).queued reached), (entry.1, entry.2.1) ∈ s.found ++ reached := by
    intro reached entry member
    rcases List.mem_cons.mp member with rfl | later
    · exact List.mem_append_left _ here
    · rcases List.mem_append.mp later with old | added
      · exact List.mem_append_left _ (ways.queued entry (by simp [front, old]))
      · obtain ⟨e, new, rfl⟩ := List.mem_map.mp added
        exact List.mem_append_right _ new
  rcases follow_cases g stop s.memory a c with same | ⟨h, -, fresh, same⟩
  · have held := held []
    simp only [List.append_nil] at held
    simp only [Exploration.followed, same, Option.toList_none, List.map_nil, List.append_nil]
    exact ways.requeue held
  · simp only [Exploration.followed, same, Option.toList_some, List.map_singleton]
    exact (ways.add here fresh (Exploration.toNat_succ below)).requeue (held _)

theorem retraceable_search (maxDepth : Option UInt32) (k : Nat) :
    Retraceable seeds (search g stop seeds maxDepth k) := by
  refine Exploration.after_induct retraceable_start (fun s front rest ways some => ?_)
    (fun s a depth c edges rest ways some below => retraceable_followed ways some below) k
  exact ways.requeue fun entry member => ways.queued entry (by simp [some, member])

theorem kept_search {maxDepth : Option UInt32} {k j : Nat} (order : k ≤ j) :
    (search g stop seeds maxDepth k).memory.Kept (search g stop seeds maxDepth j).memory := by
  refine Exploration.memory_grows (R := Links.Kept) (fun _ _ _ found => found) ?_ ?_ order
  · exact fun _ _ _ early late id entry found => late id entry (early id entry found)
  · intro links f c
    rcases follow_cases g stop links f c with same | ⟨h, -, fresh, same⟩
    · rw [same]
      exact fun _ _ found => found
    · rw [same]
      exact Links.kept_insert _ fresh

theorem search_ends (stop : FunctionNode → Bool) (seeds : List FunctionNode)
    (maxDepth : Option UInt32) :
    let c := (climb stop seeds (maxDepth.map UInt32.toNat)).eval g.answers
    (∃ k, (search g stop seeds maxDepth k).queue = [] ∧
        (search g stop seeds maxDepth k).memory = c.links ∧
        Exploration.numbered (search g stop seeds maxDepth k).found = c.found) ∧
      ∀ k, Exploration.numbered (search g stop seeds maxDepth k).found <+: c.found := by
  simp only [eval_climb]
  exact ⟨Exploration.exists_ended _ _ _ _, Exploration.found_prefix⟩

/-- The way back from a function: it ends at a seed after as many steps as the function is deep and
comes to no function twice, and to follow the links for longer than that adds nothing. -/
structure WayBack (seeds : List FunctionNode) (links : Links) (id : String) (depth : Nat)
    (path : List PathNode) : Prop where
  leads : links.LeadsBack id path
  length : path.length = depth + 1
  distinct : (path.map (·.functionId)).Nodup
  seed : ∃ f ∈ seeds, path.getLast? = some (.ofFunction f) ∧
    links.get? f.id = some (.ofFunction f, none)
  unwindFrom : ∀ steps, depth < steps → links.unwindFrom steps id = path
  unwind : links.unwind id = path

theorem wayBack_of_retraceable {s : Exploration.Stage Links FunctionNode CallerRef}
    (ways : Retraceable seeds s) {e : FunctionNode × UInt32} (member : e ∈ s.found) :
    ∃ path, WayBack seeds s.memory e.1.id e.2.toNat path := by
  obtain ⟨path, back, length⟩ := ways.back e member
  obtain ⟨last, node, entry, ends⟩ := back.getLast?
  obtain ⟨f, seed, rfl, rfl⟩ := ways.seeded last node entry
  refine ⟨path, back, length, back.nodup ways.named, ⟨f, seed, ends, entry⟩, ?_, ?_⟩
  · intro steps enough
    exact back.unwindFrom (by omega)
  · exact back.unwind ways.named

theorem acyclic_of_retraceable {s : Exploration.Stage Links FunctionNode CallerRef}
    (ways : Retraceable seeds s) (id : String) : ¬ Relation.TransGen s.memory.Next id id := by
  intro cycle
  obtain ⟨next, ⟨node, link⟩, -⟩ := Relation.TransGen.head'_iff.mp cycle
  obtain ⟨e, member, rfl⟩ := (ways.recorded id).mp (by simp [link])
  obtain ⟨path, back, -⟩ := ways.back e member
  exact back.not_cycle cycle

/-- What the links of a search come to when they are followed, after some number of its steps. -/
structure Unwinds (g : CallGraph) (stop : FunctionNode → Bool) (seeds : List FunctionNode)
    (maxDepth : Option UInt32) (s : Exploration.Stage Links FunctionNode CallerRef) : Prop where
  acyclic : ∀ id, ¬ Relation.TransGen s.memory.Next id id
  recorded : ∀ id, s.memory.get? id ≠ none ↔ ∃ e ∈ s.found, e.1.id = id
  back : ∀ e ∈ s.found, ∃ path, WayBack seeds s.memory e.1.id e.2.toNat path
  /-- What is unwound on the way is what is unwound when the search is over. -/
  settled : ∀ e ∈ s.found, s.memory.unwind e.1.id =
    ((climb stop seeds (maxDepth.map UInt32.toNat)).eval g.answers).links.unwind e.1.id
  /-- Functions of the graph are found at their distances. -/
  nearest : (∀ f ∈ seeds, g.function? f.id = some f) → seeds.Nodup →
    ∀ e ∈ s.found, ClimbDistance g stop seeds e.2.toNat e.1

/-- Wherever a search stands, its links can be followed from each function that has one: they form
no cycle and lead back to a seed by a way as long as the function is deep. This is so for a search
that stops nowhere, as that for what a change affects, and for one that stops at entry points. -/
theorem search_unwinds (g : CallGraph) (stop : FunctionNode → Bool) (seeds : List FunctionNode)
    (maxDepth : Option UInt32) :
    let c := (climb stop seeds (maxDepth.map UInt32.toNat)).eval g.answers
    (∀ k, Unwinds g stop seeds maxDepth (search g stop seeds maxDepth k)) ∧
      ∃ k, (search g stop seeds maxDepth k).queue = [] ∧
        (search g stop seeds maxDepth k).memory = c.links ∧
        Exploration.numbered (search g stop seeds maxDepth k).found = c.found := by
  obtain ⟨⟨last, ended, links, found⟩, early⟩ := search_ends (g := g) stop seeds maxDepth
  refine ⟨fun k => ?_, last, ended, links, found⟩
  have ways : Retraceable seeds (search g stop seeds maxDepth k) := retraceable_search maxDepth k
  refine ⟨acyclic_of_retraceable ways, ways.recorded, fun e => wayBack_of_retraceable ways,
    fun e member => ?_, fun present distinct e member => ?_⟩
  · have settled : search g stop seeds maxDepth (max k last) = search g stop seeds maxDepth last :=
      Exploration.after_ended ended (Nat.le_max_right ..)
    have named : (search g stop seeds maxDepth last).memory.Named :=
      (retraceable_search maxDepth last).named
    obtain ⟨path, back, -⟩ := ways.back e member
    have still := back.kept (kept_search (Nat.le_max_left k last))
    rw [settled] at still
    rw [← links, back.unwind ways.named, still.unwind named]
  · have listed : (e.1, e.2.toNat) ∈ ((climb stop seeds _).eval g.answers).found :=
      (early k).subset (List.mem_map_of_mem member)
    exact ((climb_exact stop _ present distinct).1.sound _ listed).2.2

end Search

end Backward

end DataReach
