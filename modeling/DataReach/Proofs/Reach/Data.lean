import DataReach.Proofs.Reach.Forward
import DataReach.Proofs.Totals
/-!
What the forward search reports. `forward_exact` ties every part of the report to the call
distances: the accesses, their depths and paths, and the three counts, two of which are words.
-/

namespace DataReach

/-- Whether a search may go so deep; without a bound it may go to any depth. -/
def Allowed (maxDepth : Option Nat) (n : Nat) : Prop := ∀ bound ∈ maxDepth, n ≤ bound

/-- The report is that of visits to exactly the functions within the bound, each once, at its
distance and along calls, the nearer ones first. -/
structure ReachExact (g : CallGraph) (origin : FunctionNode) (maxDepth : Option Nat)
    (visits : List Visit) (r : Reach) : Prop where
  distinct : (visits.map (·.node.id)).Nodup
  visited_iff : ∀ n f, (∃ v ∈ visits, v.node = f ∧ v.depth = n) ↔
    g.CallDistance origin n f ∧ Allowed maxDepth n
  ascending : visits.Pairwise (·.depth ≤ ·.depth)
  paths : ∀ v ∈ visits, g.CallPath origin v.depth v.node v.path
  accesses : r.accesses = visits.flatMap fun v =>
    v.node.dataAccess.map fun a => ⟨v.node.id, v.node.file, a, v.path, v.depth⟩
  traversed : r.functionsTraversed.toNat = visits.length % UInt32.size
  deepest : (∃ v ∈ visits, v.depth = r.maxDepthReached) ∧
    ∀ v ∈ visits, v.depth ≤ r.maxDepthReached
  unresolved : r.unresolvedCalls.toNat = total (·.node.unresolvedCalls) visits % UInt32.size

theorem foldl_max_spec (first : Nat) (xs : List Nat) :
    xs.foldl max first ∈ first :: xs ∧ ∀ x ∈ first :: xs, x ≤ xs.foldl max first := by
  induction xs generalizing first with
  | nil => simp
  | cons x rest ih =>
    obtain ⟨attained, bound⟩ := ih (max first x)
    have top := bound (max first x) (List.mem_cons_self ..)
    rw [List.foldl_cons]
    constructor
    · rcases List.mem_cons.mp attained with same | later
      · rw [same]
        rcases Nat.le_total first x with le | le
        · simp [Nat.max_eq_right le]
        · simp [Nat.max_eq_left le]
      · exact List.mem_cons_of_mem _ (List.mem_cons_of_mem _ later)
    · intro y member
      rcases List.mem_cons.mp member with rfl | member
      · omega
      · rcases List.mem_cons.mp member with rfl | later
        · omega
        · exact bound y (List.mem_cons_of_mem _ later)

namespace Reach

theorem eval_forward (g : CallGraph) (c : Classifier) (o : ReachOptions) {id : String}
    {f : FunctionNode} (found : g.function? id = some f) :
    (forward c o id).eval g.answers = ofVisits c o ⟨f.file, f.startLine, some f.id⟩
      ((Forward.visits f o.maxDepth).eval g.answers) := by
  simp only [forward, Inquiry.eval_bind, Inquiry.eval_function, CallGraph.answers, found,
    Inquiry.eval_pure]

theorem eval_fromFunction (g : CallGraph) (c : Classifier) (o : ReachOptions) (id : String) :
    (fromFunction c o id).eval g.answers =
      if g.functions.isEmpty then
        { origin := { functionId := some id }, graphMissing := some (.notBuilt "in-memory graph") }
      else (forward c o id).eval g.answers := by
  by_cases empty : g.functions.isEmpty <;>
    simp [fromFunction, Inquiry.missing?, CallGraph.answers, empty]

theorem eval_fromLine (g : CallGraph) (c : Classifier) (o : ReachOptions) (file : String)
    (line : UInt32) :
    (fromLine c o file line).eval g.answers =
      if g.functions.isEmpty then
        { origin := { file, line }, graphMissing := some (.notBuilt "in-memory graph") }
      else match innermost (g.inFile file) line with
        | none => { origin := { file, line } }
        | some f => (forward c o f.id).eval g.answers := by
  by_cases empty : g.functions.isEmpty
  · simp [fromLine, Inquiry.missing?, CallGraph.answers, empty]
  · cases located : innermost (g.inFile file) line <;>
      simp [fromLine, Inquiry.missing?, CallGraph.answers, empty, located]

theorem accesses_ofVisits (c : Classifier) (maxDepth : Option Nat) (origin : CodeLocation)
    (visits : List Visit) :
    (ofVisits c { maxDepth } origin visits).accesses = visits.flatMap fun v =>
      v.node.dataAccess.map fun a => ⟨v.node.id, v.node.file, a, v.path, v.depth⟩ := by
  simp [ofVisits, Visit.accesses, ReachOptions.admits]

/-- Forward reachability under default filters. The number of visits decides only when no bound is
given: depths end at `depthLimit`, and a function beyond it would have more than `UInt32.size` before
it. -/
theorem forward_exact (g : CallGraph) (c : Classifier) (maxDepth : Option Nat)
    (origin : FunctionNode) (present : g.function? origin.id = some origin)
    (counted : maxDepth = none →
      ((Forward.visits origin maxDepth).eval g.answers).length < UInt32.size) :
    ∃ visits, ReachExact g origin maxDepth visits
      ((forward c { maxDepth } origin.id).eval g.answers) := by
  obtain ⟨covers, paths⟩ := Forward.covers_visits present maxDepth
  rw [eval_forward g c { maxDepth } present]
  generalize (Forward.visits origin maxDepth).eval g.answers = visits at covers paths counted ⊢
  have existing : ∀ f ∈ visits.map (·.node), g.function? f.id = some f := by
    intro f member
    obtain ⟨v, visited, rfl⟩ := List.mem_map.mp member
    obtain ⟨-, -, distance⟩ := covers.sound v visited
    refine CallGraph.exists_of_walk ?_ (fun _ _ => CallGraph.function?_of_calls) distance.1
    rintro _ rfl
    exact present
  have within : ∀ n f, g.CallDistance origin n f →
      (n ≤ maxDepth.getD depthLimit ↔ Allowed maxDepth n) := by
    intro n f distance
    cases maxDepth with
    | some bound => simp [Allowed]
    | none =>
      have few : visits.length ≤ depthLimit := Nat.le_pred_of_lt (counted rfl)
      simpa [Allowed] using covers_all covers few distance
  have atOrigin : ∃ v ∈ visits, v.depth = 0 := by
    obtain ⟨v, visited, -, zero⟩ := (covers_mem_iff covers 0 origin).mpr
      ⟨CallGraph.callDistance_zero_iff.mpr rfl, Nat.le_refl 0, Nat.zero_le _⟩
    exact ⟨v, visited, zero⟩
  refine ⟨visits, ?_, ?_, covers.ascending, paths, accesses_ofVisits ..,
    toNat_wordTotal_one visits, ?_, toNat_wordTotal _ visits⟩
  · have ids := CallGraph.nodup_ids existing covers.distinct
    rwa [List.map_map] at ids
  · intro n f
    rw [covers_mem_iff covers n f]
    constructor
    · intro given
      rcases given with ⟨distance, -, bound⟩
      exact ⟨distance, (within n f distance).mp bound⟩
    · intro given
      rcases given with ⟨distance, allowed⟩
      exact ⟨distance, Nat.zero_le n, (within n f distance).mpr allowed⟩
  · obtain ⟨attained, bound⟩ := foldl_max_spec 0 (visits.map (·.depth))
    constructor
    · rcases List.mem_cons.mp attained with zero | member
      · obtain ⟨v, visited, same⟩ := atOrigin
        exact ⟨v, visited, same.trans zero.symm⟩
      · obtain ⟨v, visited, same⟩ := List.mem_map.mp member
        exact ⟨v, visited, same⟩
    · intro v visited
      exact bound v.depth (List.mem_cons_of_mem _ (List.mem_map_of_mem visited))

/-- Calls itself, then twice a function that calls it back, then what does not exist. -/
def looping : FunctionNode where
  id := "a.py:run:1"
  name := "run"
  qualifiedName := "run"
  file := "a.py"
  startLine := 1
  endLine := 9
  isEntryPoint := true
  isDataAccessor := false
  calls := ["a.py:run:1", "b.py:load:4", "b.py:load:4", "c.py:gone:2"].map fun id =>
    ⟨id, true, some id, 0.8, 3⟩
  calledBy := [⟨"b.py:load:4", 5⟩]
  dataAccess := []

def loopedBack : FunctionNode where
  id := "b.py:load:4"
  name := "load"
  qualifiedName := "load"
  file := "b.py"
  startLine := 4
  endLine := 8
  isEntryPoint := false
  isDataAccessor := true
  calls := [⟨"run", true, some "a.py:run:1", 0.8, 5⟩, .unresolved "print" 6]
  calledBy := [⟨"a.py:run:1", 3⟩]
  dataAccess := [⟨"users", .read, 7, ["email"]⟩]

def loopGraph : CallGraph := .ofShards [⟨"a.py", [looping]⟩, ⟨"b.py", [loopedBack]⟩]

theorem forward_exact_loop :
    loopGraph.function? looping.id = some looping ∧
      ((Forward.visits looping none).eval loopGraph.answers).length < UInt32.size ∧
      ∃ visits, ReachExact loopGraph looping none visits
        ((forward .standard {} looping.id).eval loopGraph.answers) := by
  have present : loopGraph.function? looping.id = some looping := rfl
  have counted : ((Forward.visits looping none).eval loopGraph.answers).length < UInt32.size := by
    decide +kernel
  exact ⟨present, counted,
    forward_exact loopGraph .standard none looping present fun _ => counted⟩

end Reach

end DataReach
