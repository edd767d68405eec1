import DataReach.Proofs.Extraction.Innermost
import DataReach.Proofs.Finding.DataImpact
import DataReach.Proofs.Reach.Retrace
/-!
Words are wide enough for the depths of the searches and for the lengths of functions. A depth is
only counted up from below a bound that is itself a word, and a function can only be innermost when
it is shorter than the greatest word.
-/

namespace DataReach

namespace Forward

/-! ### The forward search with a queue -/

section Search

variable {g : CallGraph}

theorem firstNew_congr {α : Type} {seen others : List String}
    (same : ∀ id, id ∈ seen ↔ id ∈ others) (entries : List (String × α)) :
    firstNew seen entries = firstNew others entries := by
  induction entries generalizing seen others with
  | nil => rfl
  | cons entry rest ih =>
    obtain ⟨id, a⟩ := entry
    simp only [firstNew, List.contains_iff_mem, same id]
    split
    · exact ih same
    · have more : ∀ other, other ∈ id :: seen ↔ other ∈ id :: others := by simp [same]
      rw [ih more]

theorem firstNew_append {α : Type} (seen : List String) (first second : List (String × α)) :
    firstNew seen (first ++ second) =
      firstNew seen first ++ firstNew (seen ++ (firstNew seen first).map (·.1)) second := by
  induction first generalizing seen with
  | nil => simp [firstNew]
  | cons entry rest ih =>
    obtain ⟨id, a⟩ := entry
    simp only [List.cons_append, firstNew]
    split
    · exact ih seen
    · rw [ih, List.cons_append, List.map_cons]
      congr 2
      exact firstNew_congr (by simp [or_left_comm]) second

/-- The search for callees, edge by edge; each function waits with the path that leads to it. -/
def exploration (g : CallGraph) :
    Exploration (List String) (FunctionNode × List PathNode) String where
  edges a := a.1.resolvedCallees
  follow seen a id :=
    if seen.contains id then (seen, none)
    else (seen ++ [id], (g.function? id).map fun h => (h, a.2 ++ [.ofFunction h]))

/-- What is new among some calls counts as seen, and is followed where there is a function. -/
def followed (g : CallGraph) (seen : List String) (calls : List (String × List PathNode)) :
    List String × List (FunctionNode × List PathNode) :=
  let new := firstNew seen calls
  (seen ++ new.map (·.1), new.filterMap fun e =>
    (g.function? e.1).map fun h => (h, e.2 ++ [.ofFunction h]))

theorem followed_append (seen : List String) (first second : List (String × List PathNode)) :
    followed g seen (first ++ second) =
      let early := followed g seen first
      let late := followed g early.1 second
      (late.1, early.2 ++ late.2) := by
  simp only [followed, firstNew_append, List.map_append, List.filterMap_append, List.append_assoc]

theorem followAll_exploration (a : FunctionNode × List PathNode) (seen : List String)
    (ids : List String) :
    (exploration g).followAll a seen ids = followed g seen (ids.map (·, a.2)) := by
  induction ids generalizing seen with
  | nil => simp [Exploration.followAll, followed, firstNew]
  | cons id rest ih =>
    have one : followed g seen [(id, a.2)] =
        (((exploration g).follow seen a id).1, ((exploration g).follow seen a id).2.toList) := by
      simp only [exploration, followed, firstNew]
      split
      · simp
      · cases found : g.function? id <;> simp [found]
    have cons : (id :: rest).map (·, a.2) = [(id, a.2)] ++ rest.map (·, a.2) := rfl
    rw [cons, followed_append, one]
    simp only [← ih]
    rfl

theorem expand_exploration (seen : List String) (level : List (FunctionNode × List PathNode)) :
    (exploration g).expand seen level =
      followed g seen (level.flatMap fun a => a.1.resolvedCallees.map (·, a.2)) := by
  induction level generalizing seen with
  | nil => simp [Exploration.expand, followed, firstNew]
  | cons a rest ih =>
    rw [List.flatMap_cons, followed_append, ← followAll_exploration]
    simp only [← ih]
    rfl

def visit (e : (FunctionNode × List PathNode) × Nat) : Visit := ⟨e.1.1, e.1.2, e.2⟩

theorem eval_levels (left depth : Nat) (seen : List String)
    (level : List (FunctionNode × List PathNode)) :
    (levels left depth seen (level.map fun a => visit (a, depth))).eval g.answers =
      ((exploration g).levels left depth seen level).2.map visit := by
  induction left generalizing depth seen level with
  | zero => simp [eval_levels_zero, Exploration.levels]
  | succ left ih =>
    have calls : (level.map fun a => visit (a, depth)).flatMap Visit.calls =
        level.flatMap fun a => a.1.resolvedCallees.map (·, a.2) := List.flatMap_map ..
    have next : ((pending seen (level.map fun a => visit (a, depth))).filterMap
        (visit? g (depth + 1))) =
          ((exploration g).expand seen level).2.map fun a => visit (a, depth + 1) := by
      rw [expand_exploration, followed, List.map_filterMap, pending, calls]
      refine List.filterMap_congr fun e _ => ?_
      simp only [visit?, Option.map_map]
      rfl
    rw [eval_levels_succ, next, pending, calls]
    simp only [Exploration.levels, List.map_append, List.map_map]
    rw [← ih, expand_exploration]
    rfl

/-- The search under way, after so many steps. Without a bound it goes as deep as words count. -/
def search (g : CallGraph) (origin : FunctionNode) (maxDepth : Option UInt32) (k : Nat) :
    Exploration.Stage (List String) (FunctionNode × List PathNode) String :=
  (exploration g).after (maxDepth.getD 0xFFFFFFFF) [origin.id] [(origin, [.ofFunction origin])] k

theorem eval_visits (origin : FunctionNode) (maxDepth : Option UInt32) :
    (visits origin (maxDepth.map UInt32.toNat)).eval g.answers =
      ((exploration g).levels (maxDepth.getD 0xFFFFFFFF).toNat 0 [origin.id]
        [(origin, [.ofFunction origin])]).2.map visit := by
  rw [visits, Backward.getD_depthLimit, ← eval_levels]
  rfl

theorem search_ends (origin : FunctionNode) (maxDepth : Option UInt32) :
    ∃ k, (search g origin maxDepth k).queue = [] ∧
      (Exploration.numbered (search g origin maxDepth k).found).map visit =
        (visits origin (maxDepth.map UInt32.toNat)).eval g.answers := by
  obtain ⟨k, ended, -, found⟩ := Exploration.exists_ended (exploration g)
    (maxDepth.getD 0xFFFFFFFF) [origin.id] [(origin, [.ofFunction origin])]
  exact ⟨k, ended, by rw [eval_visits, ← found]; rfl⟩

end Search

end Forward

/-! ### Lengths of functions -/

theorem FunctionNode.toNat_span_succ {f : FunctionNode} (below : f.extent < UInt32.size - 1) :
    (f.span + 1).toNat = f.span.toNat + 1 ∧ f.span.toNat + 1 = f.extent + 1 ∧
      f.span.toNat + 1 ≤ UInt32.size - 1 := by
  have size : UInt32.size = 2 ^ 32 := rfl
  rw [UInt32.toNat_add, UInt32.toNat_one, f.toNat_span]
  omega

/-- How long the function around a line is said to be. The word for its length is a sum that stays
within the words, and that of the lines from the first to the last one. -/
structure EnrichedFinding.Measured (functions : List FunctionNode) (line : UInt32)
    (e : EnrichedFinding) : Prop where
  none : innermost functions line = none → e.functionId = none ∧ e.blastRadius.linesOfCode = 0
  some : ∀ f, innermost functions line = some f → e.functionId = some f.id ∧
    (∃ i, Innermost functions line i f) ∧
    e.blastRadius.linesOfCode = f.span + 1 ∧ f.span.toNat + 1 ≤ UInt32.size - 1 ∧
    e.blastRadius.linesOfCode.toNat = f.span.toNat + 1 ∧
    f.startLine.toNat + e.blastRadius.linesOfCode.toNat = f.endLine.toNat + 1

section Findings

variable {g : CallGraph} {c : Classifier} {regulations : RegulationMap} {maxDepth : Option Nat}
  {finding : Finding}

theorem eval_ofFinding_outside
    (outside : innermost (g.inFile finding.file) finding.line = none) :
    ∃ missing, (EnrichedFinding.ofFinding c regulations maxDepth finding).eval g.answers =
      { EnrichedFinding.alone finding with graphMissing := missing } := by
  by_cases built : g.functions.isEmpty
  · exact ⟨_, by simp [EnrichedFinding.ofFinding, Inquiry.missing?, CallGraph.answers, built]; rfl⟩
  · refine ⟨none, ?_⟩
    simp [EnrichedFinding.ofFinding, Inquiry.missing?, CallGraph.answers, built, outside]
    rfl

theorem measured_ofFinding : EnrichedFinding.Measured (g.inFile finding.file) finding.line
    ((EnrichedFinding.ofFinding c regulations maxDepth finding).eval g.answers) := by
  cases located : innermost (g.inFile finding.file) finding.line with
  | none =>
    obtain ⟨missing, alone⟩ := eval_ofFinding_outside (c := c) located
    rw [alone]
    refine ⟨fun _ => ⟨rfl, rfl⟩, fun f found => ?_⟩
    rw [located] at found
    cases found
  | some f =>
    obtain ⟨i, chosen, below⟩ := innermost_eq_some_iff.mp located
    obtain ⟨first, last⟩ := chosen.around
    obtain ⟨sum, lines, within⟩ := FunctionNode.toNat_span_succ below
    rw [eval_ofFinding located]
    refine ⟨fun outside => ?_, fun h found => ?_⟩
    · rw [located] at outside
      cases outside
    · obtain rfl : f = h := Option.some.inj (located.symm.trans found)
      refine ⟨rfl, ⟨i, chosen⟩, rfl, within, sum, ?_⟩
      change f.startLine.toNat + (f.span + 1).toNat = f.endLine.toNat + 1
      rw [sum, lines, FunctionNode.extent]
      omega

end Findings

/-! ### All sums -/

/-- What is counted for a graph within a bound on the depth stays in the words: the depths in the
searches that its analyses make, and the lines of the functions that findings are in. -/
structure InWords (g : CallGraph) (maxDepth : Option UInt32) : Prop where
  forward : ∀ origin,
    (∀ k, Exploration.Within (maxDepth.getD 0xFFFFFFFF) (Forward.search g origin maxDepth k)) ∧
      ∃ k, (Forward.search g origin maxDepth k).queue = [] ∧
        (Exploration.numbered (Forward.search g origin maxDepth k).found).map Forward.visit =
          (Forward.visits origin (maxDepth.map UInt32.toNat)).eval g.answers
  backward : ∀ stop seeds,
    (∀ k, Exploration.Within (maxDepth.getD 0xFFFFFFFF) (Backward.search g stop seeds maxDepth k)) ∧
      ∃ k, (Backward.search g stop seeds maxDepth k).queue = [] ∧
        Exploration.numbered (Backward.search g stop seeds maxDepth k).found =
          ((Backward.climb stop seeds (maxDepth.map UInt32.toNat)).eval g.answers).found
  findings : ∀ c regulations (finding : Finding),
    EnrichedFinding.Measured (g.inFile finding.file) finding.line
      ((EnrichedFinding.ofFinding c regulations (maxDepth.map UInt32.toNat) finding).eval g.answers)

/-- No sum leaves the words, in any graph and for any bound on the depth or none. -/
theorem sums_in_words (g : CallGraph) (maxDepth : Option UInt32) : InWords g maxDepth where
  forward origin := ⟨Exploration.within_after, Forward.search_ends origin maxDepth⟩
  backward stop seeds := by
    obtain ⟨⟨k, ended, -, found⟩, -⟩ := Backward.search_ends (g := g) stop seeds maxDepth
    exact ⟨Exploration.within_after, k, ended, found⟩
  findings _ _ _ := measured_ofFinding

end DataReach
