import DataReach.Proofs.Impact.DataPaths
/-!
A path to sensitive data is a route that can be taken. It ends with calls from a changed function to
the accessor. Where recorded callers lead from the entry point to that function, they come before, by
a shortest chain; any other entry point takes its own way into the change first.
-/

namespace DataReach

namespace Impact

/-- A bound on depths; without one the number of functions keeps a search short of the limit. -/
def Within (g : CallGraph) (maxDepth : Option Nat) (n : Nat) : Prop :=
  n ≤ maxDepth.getD depthLimit ∨ maxDepth = none ∧ g.size ≤ depthLimit

def LeadsInto (g : CallGraph) (maxDepth : Option Nat) (start f : FunctionNode) : Prop :=
  ∃ n chain, g.CallerChain [f] n start chain ∧ Within g maxDepth n

def ShortestChain (g : CallGraph) (start f : FunctionNode) (chain : List FunctionNode) : Prop :=
  ∃ n, g.CallerChain [f] n start chain ∧ ∀ m other, g.CallerChain [f] m start other → n ≤ m

/-- A reported path goes from an entry point through a changed function `f` to an accessor. -/
structure IsRoute (g : CallGraph) (c : Classifier) (maxDepth : Option Nat)
    (changed : List FunctionNode) (entry : AffectedFunction) (p : DataPath)
    (start f accessor : FunctionNode) (tail : List FunctionNode) : Prop where
  owner : p.entryPoint = entry.id
  entryPoint : g.function? p.entryPoint = some start ∧ start.isEntryPoint = true
  first : p.fullPath.head? = some (.ofFunction start)
  last : p.fullPath.getLast? = some (.ofFunction accessor)
  calls : ∃ n, n ≤ maxDepth.getD depthLimit ∧ WalkOf (· = f) g.Calls n accessor tail
  shows : ∃ a ∈ accessor.dataAccess, c.classifyAccess a ≠ .unknown ∧ Shows c p accessor a
  /-- The chain and the calls share the changed function. -/
  through : LeadsInto g maxDepth start f → ∃ chain, ShortestChain g start f chain ∧
    p.fullPath = (chain ++ tail.drop 1).map .ofFunction
  beside : ¬ LeadsInto g maxDepth start f →
    p.fullPath = entry.pathToChange ++ tail.map .ofFunction ∧
      ∃ h ∈ changed, h.id ≠ f.id ∧ entry.pathToChange.getLast? = some (.ofFunction h)

section Chains

variable {g : CallGraph} {maxDepth : Option Nat} {f start : FunctionNode}

theorem callerChain_here (f : FunctionNode) : g.CallerChain [f] 0 f [f] :=
  CallGraph.callerChain_iff_walkOf.mpr (walkOf_start (List.mem_singleton_self f))

theorem depth_le_of_within (present : g.function? f.id = some f) {n m : Nat}
    (distance : Distance (· ∈ [f]) g.HasCaller m start) (shorter : m ≤ n)
    (within : Within g maxDepth n) : m ≤ maxDepth.getD depthLimit := by
  rcases within with bound | ⟨rfl, small⟩
  · exact Nat.le_trans shorter bound
  · have starts : ∀ k ∈ [f], g.function? k.id = some k := by simpa using present
    have below := CallGraph.distance_lt_size starts
      (fun _ _ => CallGraph.function?_of_hasCaller) distance
    exact Nat.le_trans (Nat.le_of_lt below) small

theorem mem_routes {callers : List Caller} {route : String × List PathNode} :
    route ∈ routes f callers ↔
      (f.isEntryPoint = true ∧ route = (f.id, [.ofFunction f])) ∨
        ∃ r ∈ callers, r.node.isEntryPoint = true ∧ route = (r.node.id, r.path) := by
  rw [routes, List.mem_append]
  refine or_congr ?_ ?_
  · by_cases entry : f.isEntryPoint <;> simp [entry]
  · constructor
    · intro member
      obtain ⟨r, kept, rfl⟩ := List.mem_map.mp member
      obtain ⟨caller, entry⟩ := List.mem_filter.mp kept
      exact ⟨r, caller, entry, rfl⟩
    · intro given
      obtain ⟨r, caller, entry, rfl⟩ := given
      exact List.mem_map_of_mem (List.mem_filter.mpr ⟨caller, entry⟩)

theorem chain_of_route (present : g.function? f.id = some f)
    (held : g.function? start.id = some start) {route : List PathNode}
    (known : (routesInto g maxDepth f).get? start.id = some route) :
    LeadsInto g maxDepth start f ∧ ∃ chain, ShortestChain g start f chain ∧
      route = chain.map .ofFunction := by
  have starts : ∀ k ∈ [f], g.function? k.id = some k := by simpa using present
  rcases mem_routes.mp (Dict.mem_of_get? known) with ⟨-, own⟩ | ⟨r, caller, -, found⟩
  · obtain ⟨same, rfl⟩ := Prod.mk.inj own
    obtain rfl := CallGraph.eq_of_id held present same
    refine ⟨⟨0, [start], callerChain_here start, .inl (Nat.zero_le _)⟩, [start], ?_, rfl⟩
    exact ⟨0, callerChain_here start, fun m _ _ => Nat.zero_le m⟩
  · obtain ⟨same, rfl⟩ := Prod.mk.inj found
    have exact := covers_callersOf starts (List.nodup_singleton f) maxDepth
    obtain ⟨-, bound, distance⟩ := exact.1.sound r caller
    obtain rfl := CallGraph.eq_of_id held (function?_of_distance starts distance) same
    obtain ⟨chain, isChain, path⟩ := exact.2 r caller
    refine ⟨⟨r.depth, chain, isChain, .inl bound⟩, chain, ?_, path⟩
    exact ⟨r.depth, isChain, (distance_iff_chain.mp distance).2⟩

theorem route_of_leadsInto (present : g.function? f.id = some f) (entry : start.isEntryPoint = true)
    (into : LeadsInto g maxDepth start f) :
    ∃ route, (routesInto g maxDepth f).get? start.id = some route := by
  have starts : ∀ k ∈ [f], g.function? k.id = some k := by simpa using present
  have listed : ∃ route, (start.id, route) ∈ routesInto g maxDepth f := by
    obtain ⟨n, chain, isChain, within⟩ := into
    have walk := CallGraph.exists_callerChain_iff_walk.mp ⟨chain, isChain⟩
    obtain ⟨m, shorter, distance⟩ := walk_distance walk
    rcases Nat.eq_zero_or_pos m with rfl | positive
    · obtain rfl := List.mem_singleton.mp (distance_zero_iff.mp distance)
      exact ⟨_, mem_routes.mpr (.inl ⟨entry, rfl⟩)⟩
    · have bound := depth_le_of_within present distance shorter within
      have covers := (covers_callersOf starts (List.nodup_singleton f) maxDepth).1
      obtain ⟨r, caller, rfl⟩ := covers.complete m start distance positive bound
      exact ⟨_, mem_routes.mpr (.inr ⟨r, caller, entry, rfl⟩)⟩
  obtain ⟨route, member⟩ := listed
  apply Option.ne_none_iff_exists'.mp
  rw [ne_eq, Dict.get?_eq_none_iff, not_not]
  exact List.mem_map_of_mem member

end Chains

section Entries

variable {g : CallGraph} {c : Classifier} {maxDepth : Option Nat} {changed : List FunctionNode}

theorem described_entriesInto (present : ∀ f ∈ changed, g.function? f.id = some f)
    (distinct : changed.Nodup) {e : AffectedFunction}
    (member : e ∈ entriesInto g c maxDepth changed) :
    ∃ start chain, g.function? start.id = some start ∧ start.isEntryPoint = true ∧
      e.id = start.id ∧ e.pathToChange = chain.map .ofFunction ∧
      g.CallerChain changed e.depth start chain ∧ e.depth ≤ maxDepth.getD depthLimit := by
  rcases List.mem_append.mp (List.mem_mergeSort.mp member) with own | affected
  · obtain ⟨f, isEntry, rfl⟩ := List.mem_map.mp own
    obtain ⟨inside, entry⟩ := List.mem_filter.mp isEntry
    exact ⟨f, [f], present f inside, entry, rfl, rfl,
      CallGraph.callerChain_iff_walkOf.mpr (walkOf_start inside), Nat.zero_le _⟩
  · obtain ⟨listed, entry⟩ := List.mem_filter.mp affected
    obtain ⟨f, chain, found, same, isChain, -⟩ := described_affectedBy present distinct listed
    rw [same] at entry
    have id : e.id = f.id := by
      rw [same]
      rfl
    have path : e.pathToChange = chain.map .ofFunction := by
      rw [same]
      rfl
    have near := (affectedAt_iff present distinct found e.depth).mp ⟨e, listed, id, rfl⟩
    exact ⟨f, chain, found, entry, id, path, isChain, near.2.2⟩

theorem callerChain_last {n : Nat} {start f : FunctionNode} {chain : List FunctionNode}
    (isChain : g.CallerChain changed n start chain) (last : chain.getLast? = some f) :
    g.CallerChain [f] n start chain where
  length := isChain.length
  first := isChain.first
  last := ⟨f, List.mem_singleton_self f, last⟩
  linked := isChain.linked

end Entries

section Joined

variable {g : CallGraph} {maxDepth : Option Nat} {start f accessor : FunctionNode}

theorem getLast?_append_drop {α : Type} {front back : List α} {a z : α}
    (meets : front.getLast? = some a) (starts : back.head? = some a)
    (ends : back.getLast? = some z) : (front ++ back.drop 1).getLast? = some z := by
  cases back with
  | nil => cases starts
  | cons b rest =>
    cases starts
    cases rest with
    | nil =>
      cases ends
      simpa using meets
    | cons d rest =>
      rw [List.getLast?_cons_cons] at ends
      rw [List.drop_one, List.tail_cons, List.getLast?_append, ends]
      rfl

theorem joined_ends {chain tail : List FunctionNode} (shortest : ShortestChain g start f chain)
    {n : Nat} (walk : WalkOf (· = f) g.Calls n accessor tail) :
    (chain ++ tail.drop 1).head? = some start ∧
      (chain ++ tail.drop 1).getLast? = some accessor := by
  obtain ⟨m, isChain, -⟩ := shortest
  obtain ⟨k, alone, meets⟩ := isChain.last
  obtain rfl := List.mem_singleton.mp alone
  obtain ⟨s, rfl, origin⟩ := walk.first
  refine ⟨?_, getLast?_append_drop meets origin walk.last⟩
  simp [List.head?_append, isChain.first]

section Path

variable {e : AffectedFunction} {hit : Hit} {tail : List FunctionNode}
  (present : g.function? f.id = some f) (held : g.function? start.id = some start)
  (same : e.id = start.id) (steps : hit.access.path = tail.map .ofFunction)
include present held same steps

theorem fullPath_through (isEntry : start.isEntryPoint = true)
    (into : LeadsInto g maxDepth start f) : ∃ chain, ShortestChain g start f chain ∧
      fullPath (routesInto g maxDepth f) e hit = (chain ++ tail.drop 1).map .ofFunction := by
  obtain ⟨route, found⟩ := route_of_leadsInto present isEntry into
  obtain ⟨-, chain, shortest, rfl⟩ := chain_of_route present held found
  refine ⟨chain, shortest, ?_⟩
  simp only [fullPath, same, found, steps, List.map_append, List.map_drop]

theorem fullPath_beside (outside : ¬ LeadsInto g maxDepth start f) :
    fullPath (routesInto g maxDepth f) e hit = e.pathToChange ++ tail.map .ofFunction := by
  cases found : (routesInto g maxDepth f).get? start.id with
  | some route => exact absurd (chain_of_route present held found).1 outside
  | none => simp only [fullPath, same, found, steps]

end Path

end Joined

section Exact

variable {g : CallGraph} {c : Classifier} {maxDepth : Option Nat} {changed : List FunctionNode}

theorem isRoute_dataPath (present : ∀ f ∈ changed, g.function? f.id = some f)
    (distinct : changed.Nodup) {e : AffectedFunction}
    (entry : e ∈ entriesInto g c maxDepth changed) {f : FunctionNode} (inside : f ∈ changed)
    {v : Visit} (visited : v ∈ (Forward.visits f maxDepth).eval g.answers) {hit : Hit}
    (isHit : hit ∈ hitsAt c v) :
    ∃ start tail, IsRoute g c maxDepth changed e
      (dataPath (routesInto g maxDepth f) e hit).2 start f v.node tail := by
  obtain ⟨start, way, held, isEntry, same, path, isWay, near⟩ :=
    described_entriesInto present distinct entry
  obtain ⟨covers, paths⟩ := Forward.covers_visits (present f inside) maxDepth
  obtain ⟨tail, walk, path'⟩ := paths v visited
  obtain ⟨a, sensitive, made⟩ := List.mem_map.mp isHit
  have steps : hit.access.path = tail.map .ofFunction := by
    rw [← made]
    exact path'
  have through : LeadsInto g maxDepth start f → _ :=
    fullPath_through (present f inside) held same steps isEntry
  have beside : ¬ LeadsInto g maxDepth start f → _ :=
    fullPath_beside (present f inside) held same steps
  have ends : (fullPath (routesInto g maxDepth f) e hit).head? = some (.ofFunction start) ∧
      (fullPath (routesInto g maxDepth f) e hit).getLast? = some (.ofFunction v.node) := by
    by_cases into : LeadsInto g maxDepth start f
    · obtain ⟨chain, shortest, whole⟩ := through into
      obtain ⟨first, last⟩ := joined_ends shortest walk
      rw [whole, List.head?_map, List.getLast?_map, first, last]
      exact ⟨rfl, rfl⟩
    · rw [beside into, path]
      simp [isWay.first, walk.last]
  have owner : g.function? e.id = some start := by rwa [same]
  refine ⟨start, tail, rfl, ⟨owner, isEntry⟩, ends.1, ends.2, ?_, ?_, through, ?_⟩
  · exact ⟨v.depth, (covers.sound v visited).2.1, walk⟩
  · obtain ⟨own, known⟩ := mem_sensitiveAccesses.mp sensitive
    rw [← made]
    exact ⟨a, own, known, rfl, rfl, rfl, rfl, rfl⟩
  · intro outside
    obtain ⟨h, member, meets⟩ := isWay.last
    refine ⟨beside outside, h, member, fun equal => ?_, by simp [path, meets]⟩
    obtain rfl := CallGraph.eq_of_id (present h member) (present f inside) equal
    exact outside ⟨e.depth, way, callerChain_last isWay meets, .inl near⟩

theorem dataPaths_analyze_nil (target : String) :
    ((analyze c maxDepth target []).eval g.answers).dataPaths = [] := by
  by_cases built : g.functions.isEmpty <;>
    simp [analyze, Inquiry.missing?, CallGraph.answers, built]

def DataPathsReal (g : CallGraph) (c : Classifier) (maxDepth : Option Nat)
    (changed : List FunctionNode) (r : Impact) : Prop :=
  ∀ p ∈ r.dataPaths, ∃ entry ∈ r.entryPoints, ∃ f ∈ changed, ∃ start accessor tail,
    IsRoute g c maxDepth changed entry p start f accessor tail

theorem dataPathsReal_ofChanged (target : String)
    (present : ∀ f ∈ changed, g.function? f.id = some f) (distinct : changed.Nodup) :
    DataPathsReal g c maxDepth changed
      ((ofChanged c maxDepth target changed).eval g.answers) := by
  intro p reported
  rw [dataPaths_ofChanged] at reported
  rw [entryPoints_ofChanged]
  obtain ⟨k, kept⟩ := mem_dataPathsOf_iff.mp reported
  obtain ⟨f, inside, e, entry, v, visited, hit, isHit, same⟩ :=
    (mem_offers_iff present).mp (offered_of_kept kept)
  obtain ⟨start, tail, route⟩ := isRoute_dataPath present distinct entry inside visited isHit
  rw [same] at route
  exact ⟨e, entry, f, inside, start, v.node, tail, route⟩

theorem dataPathsReal_congr {other : List FunctionNode} {r : Impact}
    (real : DataPathsReal g c maxDepth changed r) (same : ∀ f, f ∈ changed ↔ f ∈ other) :
    DataPathsReal g c maxDepth other r := by
  intro p reported
  obtain ⟨entry, isEntry, f, inside, start, accessor, tail, route⟩ := real p reported
  refine ⟨entry, isEntry, f, (same f).mp inside, start, accessor, tail, { route with beside := ?_ }⟩
  intro outside
  obtain ⟨whole, h, changed', apart, meets⟩ := route.beside outside
  exact ⟨whole, h, (same h).mp changed', apart, meets⟩

end Exact

/-- Every path to sensitive data that the impact of a change reports is a route. -/
theorem data_paths_real (g : CallGraph) (c : Classifier) (maxDepth : Option Nat)
    (change : Change) :
    DataPathsReal g c maxDepth (change.functions g)
      ((change.impact c maxDepth).eval g.answers) := by
  rw [change.eval_impact]
  have present := change.present g
  generalize change.functions g = changed at present
  by_cases nonempty : changed = []
  · intro p reported
    rw [nonempty, dataPaths_analyze_nil] at reported
    cases reported
  · rw [eval_analyze g c maxDepth change.target nonempty present]
    have same := mem_distinctById present
    have held : ∀ f ∈ distinctById changed, g.function? f.id = some f := fun f member =>
      present f ((same f).mp member)
    exact dataPathsReal_congr
      (dataPathsReal_ofChanged change.target held (nodup_distinctById changed)) same

end Impact

end DataReach
