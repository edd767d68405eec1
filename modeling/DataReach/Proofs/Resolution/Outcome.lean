import DataReach.Proofs.NameIndex
import DataReach.Proofs.Settling
import Mathlib.Data.List.Forall2
/-!
What resolving makes of the calls of a shard. Each target is taken to mean the least of its
candidates that count, with a confidence that depends on how many there are and where, whatever the
call was resolved to before; the counts grow by just these outcomes.
-/

namespace DataReach

/-! ### The choice among candidates -/

namespace Candidate

def Counts (file : String) (found : List Candidate) (c : Candidate) : Prop :=
  c ∈ found ∧ ((∃ d ∈ found, d.file = file) → c.file = file)

def Chosen (file : String) (found : List Candidate) (c : Candidate) : Prop :=
  c.Counts file found ∧ ∀ d : Candidate, d.Counts file found → d = c ∨ c.Precedes d

end Candidate

/-- The ways in which a target with some candidates is resolved, each with its confidence. -/
inductive Way (file : String) (found : List Candidate) : String → Float → Prop
  | sameFileUnique : found.length = 1 → (∃ d ∈ found, d.file = file) →
      Way file found "same_file_unique" 0.95
  | globalUnique : found.length = 1 → (∀ d ∈ found, d.file ≠ file) →
      Way file found "global_unique" 0.80
  | sameFileAmbiguous : 1 < found.length → (∃ d ∈ found, d.file = file) →
      Way file found "same_file_ambiguous" 0.70
  | crossFileAmbiguous : 1 < found.length → (∀ d ∈ found, d.file ≠ file) →
      Way file found "cross_file_ambiguous" 0.40

section Choice

variable {file : String} {found : List Candidate} {c : Candidate} {how : Strategy}

theorem resolveTarget_eq_none_iff : resolveTarget file found = none ↔ found = [] := by
  match found with
  | [] => simp [resolveTarget]
  | [only] => simp [resolveTarget]
  | first :: second :: rest =>
    simp only [resolveTarget, reduceCtorEq, iff_false]
    split
    · simp
    · simp

theorem chosen_single (c : Candidate) : c.Chosen file [c] :=
  ⟨⟨List.mem_singleton_self c, by simp⟩, fun _ counts => .inl (List.mem_singleton.mp counts.1)⟩

theorem chosen_own (ascending : found.Pairwise Candidate.Precedes)
    (picked : found.find? (·.file == file) = some c) : c.Chosen file found := by
  obtain ⟨own, front, back, split, others⟩ := List.find?_eq_some_iff_append.mp picked
  have member := List.mem_of_find?_eq_some picked
  have here : c.file = file := by simpa using own
  refine ⟨⟨member, fun _ => here⟩, fun d ⟨inside, counts⟩ => ?_⟩
  have there : d.file = file := counts ⟨c, member, here⟩
  rw [split] at inside ascending
  rcases List.mem_append.mp inside with before | behind
  · exact absurd there (by simpa using others d before)
  · rcases List.mem_cons.mp behind with same | after
    · exact .inl same
    · exact .inr (List.rel_of_pairwise_cons (List.pairwise_append.mp ascending).2.1 after)

theorem chosen_first {rest : List Candidate} (ascending : (c :: rest).Pairwise Candidate.Precedes)
    (elsewhere : ∀ d ∈ c :: rest, d.file ≠ file) : c.Chosen file (c :: rest) := by
  refine ⟨⟨List.mem_cons_self .., fun ⟨d, member, own⟩ => absurd own (elsewhere d member)⟩, ?_⟩
  intro d counts
  rcases List.mem_cons.mp counts.1 with same | after
  · exact .inl same
  · exact .inr (List.rel_of_pairwise_cons ascending after)

theorem resolveTarget_some (ascending : found.Pairwise Candidate.Precedes)
    (picked : resolveTarget file found = some (c, how)) :
    c.Chosen file found ∧ Way file found how.name how.confidence := by
  match found with
  | [] => cases picked
  | [only] =>
    by_cases own : only.file = file
    · simp only [resolveTarget, own, beq_self_eq_true, if_true] at picked
      cases picked
      exact ⟨chosen_single c, .sameFileUnique rfl ⟨c, List.mem_singleton_self c, own⟩⟩
    · simp only [resolveTarget, own, beq_iff_eq, if_false] at picked
      cases picked
      refine ⟨chosen_single c, .globalUnique rfl fun d member => ?_⟩
      rwa [List.mem_singleton.mp member]
  | first :: second :: rest =>
    have several : 1 < (first :: second :: rest).length := by simp
    rw [resolveTarget] at picked
    · split at picked
      · next same =>
        cases picked
        have chosen := chosen_own ascending same
        have own : c.file = file := by simpa using List.find?_some same
        exact ⟨chosen, .sameFileAmbiguous several ⟨c, chosen.1.1, own⟩⟩
      · next missed =>
        have elsewhere : ∀ d ∈ first :: second :: rest, d.file ≠ file := by
          simpa using missed
        cases picked
        exact ⟨chosen_first ascending elsewhere, .crossFileAmbiguous several elsewhere⟩
    · simp

end Choice

theorem NameIndex.candidates_ascending (shards : List Shard) (target : String) :
    ((ofShards shards).candidates target).Pairwise Candidate.Precedes := by
  by_cases qualified : IsQualified (shards.flatMap (·.functions)) target
  · exact (candidates_qualified qualified).ascending
  · exact (candidates_simple qualified).ascending

/-! ### Edges -/

namespace CallEdge

def resolution (e : CallEdge) : Bool × Option String × Float := (e.resolved, e.resolvedId, e.confidence)

/-- The edge after it was resolved, if its target can mean these candidates. A confidence of zero
may have kept its sign. -/
structure Resolved (file : String) (found : List Candidate) (before after : CallEdge) : Prop where
  target : after.target = before.target
  line : after.line = before.line
  unresolved : found = [] →
    after.resolved = false ∧ after.resolvedId = none ∧ (after.confidence == 0) = true
  resolved : found ≠ [] → ∃ c : Candidate, c.Chosen file found ∧
    after.resolved = true ∧ after.resolvedId = some c.id ∧
    ∃ name, Way file found name after.confidence

def ResolvedAlike (e e' : CallEdge) : Prop :=
  e.resolved = e'.resolved ∧ e.resolvedId = e'.resolvedId ∧ (e.confidence == e'.confidence) = true

variable {e e' : CallEdge} {file : String} {index : NameIndex}

theorem confidence_withOutcome (e : CallEdge) (outcome : Option (Candidate × Strategy)) :
    ((e.withOutcome outcome).confidence == (e.withOutcome outcome).confidence) = true := by
  rcases outcome with _ | ⟨c, how⟩
  · have zero : ((0.0 : Float) == 0.0) = true := by decide +kernel
    exact zero
  · have number : (how.confidence == how.confidence) = true := by cases how <;> decide +kernel
    exact number

theorem eq_of_beq_confidence {x : Float} {how : Strategy} (equal : (x == how.confidence) = true) :
    x = how.confidence := by
  have positive : how.confidence ≠ 0 ∧ how.confidence ≠ -0 := by cases how <;> decide +kernel
  rcases (Float.beq_iff_ne_nan_and_eq.mp equal).2.2 with same | ⟨-, zero⟩ | ⟨-, zero⟩
  · exact same
  · exact absurd zero positive.2
  · exact absurd zero positive.1

theorem eq_zero_of_beq {x : Float} (equal : (x == 0) = true) : x = 0 ∨ x = -0 := by
  rcases (Float.beq_iff_ne_nan_and_eq.mp equal).2.2 with same | ⟨same, -⟩ | ⟨same, -⟩
  · exact .inl same
  · exact .inl same
  · exact .inr same

theorem confidence_resolve_some {c : Candidate} {how : Strategy}
    (picked : e.outcome file index = some (c, how)) :
    (e.resolve file index).confidence = how.confidence := by
  rcases e.resolve_cases file index with changed | ⟨kept, same⟩
  · rw [changed, picked]
    rfl
  · rw [picked] at same
    simp only [resolvedOtherwise, Bool.or_eq_false_iff] at same
    have equal : (e.confidence == how.confidence) = true := by
      simpa [bne, withOutcome] using same.2
    rw [kept, eq_of_beq_confidence equal]

theorem confidence_resolve_none (missed : e.outcome file index = none) :
    ((e.resolve file index).confidence == 0) = true := by
  rcases e.resolve_cases file index with changed | ⟨kept, same⟩
  · have zero : ((0.0 : Float) == 0) = true := by decide +kernel
    rw [changed, missed]
    exact zero
  · rw [missed] at same
    simp only [resolvedOtherwise, Bool.or_eq_false_iff] at same
    have equal : (0.0 : Float) = 0 := by decide +kernel
    rw [kept, ← equal]
    simpa [bne, withOutcome] using same.2

theorem line_resolve : (e.resolve file index).line = e.line := by
  have same : (e.resolve file index).bare.line = e.bare.line := by rw [bare_resolve]
  exact same

theorem resolved_resolve (shards : List Shard) :
    Resolved file ((NameIndex.ofShards shards).candidates e.target) e
      (e.resolve file (.ofShards shards)) := by
  have outcome := e.resolve_outcome file (.ofShards shards)
  refine ⟨e.target_resolve file _, line_resolve, fun nothing => ?_, fun something => ?_⟩
  · have missed : e.outcome file (.ofShards shards) = none :=
      resolveTarget_eq_none_iff.mpr nothing
    rw [missed] at outcome
    exact ⟨outcome.1, outcome.2, confidence_resolve_none missed⟩
  · cases picked : e.outcome file (.ofShards shards) with
    | none => exact absurd (resolveTarget_eq_none_iff.mp picked) something
    | some best =>
      obtain ⟨chosen, way⟩ :=
        resolveTarget_some (NameIndex.candidates_ascending shards e.target) picked
      rw [picked] at outcome
      rw [← confidence_resolve_some picked] at way
      exact ⟨best.1, chosen, outcome.1, outcome.2, best.2.name, way⟩

theorem resolution_resolve_iff : (e.resolve file index).resolution = e.resolution ↔
    e.resolvedOtherwise (e.withOutcome (e.outcome file index)) = false := by
  cases differs : e.resolvedOtherwise (e.withOutcome (e.outcome file index)) with
  | false => simp [resolve, differs]
  | true =>
    have changed : e.resolve file index = e.withOutcome (e.outcome file index) := by
      simp [resolve, differs]
    have number := e.confidence_withOutcome (e.outcome file index)
    rw [changed]
    simp only [resolution, Prod.mk.injEq, Bool.true_eq_false, iff_false]
    rintro ⟨resolved, id, confidence⟩
    rw [confidence] at number
    rw [resolvedOtherwise, resolved, id, confidence] at differs
    simp [bne, number] at differs

theorem alike_resolve (same : e.target = e'.target) :
    (e.resolve file index).ResolvedAlike (e'.resolve file index) := by
  have outcome : e.outcome file index = e'.outcome file index := by rw [CallEdge.outcome, same,
    CallEdge.outcome]
  obtain ⟨resolved, id⟩ := e.resolve_outcome file index
  obtain ⟨resolved', id'⟩ := e'.resolve_outcome file index
  refine ⟨by rw [resolved, resolved', outcome], by rw [id, id', outcome], ?_⟩
  cases picked : e'.outcome file index with
  | some best =>
    have number := e.confidence_withOutcome (some best)
    rw [confidence_resolve_some (outcome.trans picked), confidence_resolve_some picked]
    exact number
  | none =>
    have zero := eq_zero_of_beq (confidence_resolve_none (outcome.trans picked))
    have zero' := eq_zero_of_beq (confidence_resolve_none picked)
    rcases zero with one | one <;> rcases zero' with other | other
    all_goals
      rw [one, other]
      decide +kernel

end CallEdge

/-! ### Counts -/

/-- The counts with one more call site for each label: the name of the way in which it was resolved,
or nothing. -/
structure Diagnostics.Counted (labels : List (Option String)) (before after : Diagnostics) :
    Prop where
  total : after.totalCallSites = before.totalCallSites + labels.length
  resolved : after.resolved = before.resolved + labels.countP Option.isSome
  unresolved : after.unresolved = before.unresolved + labels.count none
  byStrategy : ∀ name, after.byStrategy.get? name = if some name ∈ labels then
      some ((before.byStrategy.get? name).getD 0 + labels.count (some name))
    else before.byStrategy.get? name
  batches : after.batches = before.batches
  shardsChanged : after.shardsChanged = before.shardsChanged

namespace Diagnostics

variable {d d' d'' : Diagnostics}

theorem counted_nil (d : Diagnostics) : Counted [] d d where
  total := rfl
  resolved := rfl
  unresolved := rfl
  byStrategy := fun _ => rfl
  batches := rfl
  shardsChanged := rfl

theorem counted_record (d : Diagnostics) (outcome : Option Strategy) :
    Counted [outcome.map (·.name)] d (d.record outcome) := by
  cases outcome with
  | none => exact ⟨rfl, rfl, rfl, fun _ => by simp [record], rfl, rfl⟩
  | some how =>
    refine ⟨rfl, rfl, rfl, fun name => ?_, rfl, rfl⟩
    simp only [record, Dict.get?_alter, Option.map_some, List.mem_singleton, Option.some.injEq]
    by_cases own : name = how.name
    · simp [own]
    · simp [own]

theorem Counted.append {front back : List (Option String)} (first : Counted front d d')
    (second : Counted back d' d'') : Counted (front ++ back) d d'' where
  total := by rw [second.total, first.total, List.length_append, Nat.add_assoc]
  resolved := by rw [second.resolved, first.resolved, List.countP_append, Nat.add_assoc]
  unresolved := by rw [second.unresolved, first.unresolved, List.count_append, Nat.add_assoc]
  byStrategy := by
    intro name
    rw [second.byStrategy, first.byStrategy]
    by_cases early : some name ∈ front
    · by_cases late : some name ∈ back
      · simp [early, late, Nat.add_assoc]
      · simp [early, late, List.count_eq_zero_of_not_mem late]
    · by_cases late : some name ∈ back
      · simp [early, late, List.count_eq_zero_of_not_mem early]
      · simp [early, late]
  batches := second.batches.trans first.batches
  shardsChanged := second.shardsChanged.trans first.shardsChanged

theorem counted_foldl {α : Type} (outcome : α → Option Strategy) (xs : List α) (d : Diagnostics) :
    Counted (xs.map fun x => (outcome x).map (·.name)) d
      (xs.foldl (fun d x => d.record (outcome x)) d) := by
  induction xs generalizing d with
  | nil => exact counted_nil d
  | cons x rest ih => exact (counted_record d (outcome x)).append (ih _)

end Diagnostics

/-! ### Shards -/

namespace Shard

def edges (s : Shard) : List CallEdge := s.functions.flatMap (·.calls)

def Labels (file : String) (index : NameIndex) (e : CallEdge) : Option String → Prop
  | none => index.candidates e.target = []
  | some name => ∃ confidence, Way file (index.candidates e.target) name confidence

variable {s t : Shard} {index : NameIndex}

theorem edges_resolve : (s.resolve index).edges = s.edges.map (·.resolve s.file index) := by
  simp only [edges, resolve, FunctionNode.resolve, List.flatMap_map, List.map_flatMap]

theorem needsResolving_eq : s.needsResolving index =
    s.edges.any fun e => e.resolvedOtherwise (e.withOutcome (e.outcome s.file index)) := by
  rw [edges, List.any_flatMap]
  rfl

theorem needsResolving_iff : s.needsResolving index = true ↔
    (s.resolve index).edges.map CallEdge.resolution ≠ s.edges.map CallEdge.resolution := by
  rw [edges_resolve, List.map_map, ne_eq, List.map_inj_left, needsResolving_eq]
  simp only [Function.comp_apply, CallEdge.resolution_resolve_iff, List.any_eq_true]
  push Not
  simp only [Bool.not_eq_false]

theorem edges_bare (s : Shard) : s.bare.edges = s.edges.map CallEdge.bare := by
  simp only [edges, Shard.bare, FunctionNode.bare, List.flatMap_map, List.map_flatMap]

theorem forall₂_edges_bare (same : t.bare = s.bare) :
    List.Forall₂ (fun e e' : CallEdge => e.bare = e'.bare) t.edges s.edges := by
  have equal : List.Forall₂ (· = ·) (t.edges.map CallEdge.bare) (s.edges.map CallEdge.bare) := by
    rw [List.forall₂_eq_eq_eq, ← edges_bare, same, edges_bare]
  exact List.forall₂_map_right_iff.mp (List.forall₂_map_left_iff.mp equal)

theorem alike_of_bare (same : t.bare = s.bare) :
    List.Forall₂ CallEdge.ResolvedAlike (t.resolve index).edges (s.resolve index).edges := by
  have file : t.bare.file = s.bare.file := congrArg Shard.file same
  rw [edges_resolve, edges_resolve, show t.file = s.file from file, List.forall₂_map_left_iff,
    List.forall₂_map_right_iff]
  refine (forall₂_edges_bare same).imp fun e e' bare => CallEdge.alike_resolve ?_
  have target : e.bare.target = e'.bare.target := congrArg CallEdge.target bare
  exact target

/-- What resolving does to a shard, and what it tells of it. -/
structure ResolvedBy (index : NameIndex) (s : Shard) : Prop where
  file : (s.resolve index).file = s.file
  functions : List.Forall₂ (fun f f' : FunctionNode => f' = { f with calls := f'.calls } ∧
      List.Forall₂ (fun e e' => e.Resolved s.file (index.candidates e.target) e') f.calls f'.calls)
    s.functions (s.resolve index).functions
  changed_iff : s.needsResolving index = true ↔
    (s.resolve index).edges.map CallEdge.resolution ≠ s.edges.map CallEdge.resolution
  /-- A shard whose calls were resolved otherwise, or not at all, comes to the same. -/
  fresh : ∀ t : Shard, t.bare = s.bare →
    List.Forall₂ CallEdge.ResolvedAlike (t.resolve index).edges (s.resolve index).edges
  settled : (s.resolve index).needsResolving index = false
  counted : ∃ labels, List.Forall₂ (Labels s.file index) s.edges labels ∧
    ∀ d, Diagnostics.Counted labels d (s.diagnose index d)

/-- Resolving, for any shard in any state and the names of any shards. -/
theorem resolve_exact (shards : List Shard) (s : Shard) : s.ResolvedBy (.ofShards shards) where
  file := rfl
  functions := by
    rw [resolve, List.forall₂_map_right_iff, List.forall₂_same]
    intro f _
    refine ⟨rfl, ?_⟩
    rw [FunctionNode.resolve, List.forall₂_map_right_iff, List.forall₂_same]
    exact fun e _ => CallEdge.resolved_resolve shards
  changed_iff := needsResolving_iff
  fresh := fun _ same => alike_of_bare same
  settled := s.needsResolving_resolve _
  counted := by
    refine ⟨s.edges.map fun e => (e.outcome s.file (.ofShards shards)).map (·.2.name), ?_, ?_⟩
    · rw [List.forall₂_map_right_iff, List.forall₂_same]
      intro e _
      cases picked : e.outcome s.file (.ofShards shards) with
      | none => exact resolveTarget_eq_none_iff.mp picked
      | some best =>
        have way := (resolveTarget_some
          (NameIndex.candidates_ascending shards e.target) picked).2
        exact ⟨_, way⟩
    · intro d
      have counted := Diagnostics.counted_foldl
        (fun e : CallEdge => (e.outcome s.file (.ofShards shards)).map (·.2)) s.edges d
      simp only [Option.map_map, Function.comp_def] at counted
      exact counted

end Shard

end DataReach
