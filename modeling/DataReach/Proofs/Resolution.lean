import DataReach.Proofs.Store.Holds
import DataReach.Resolution
import Mathlib
/-!
What resolving does to the edges of a shard. Each edge takes the outcome of its target, and an
outcome names one of the functions that were indexed.
-/

namespace DataReach

theorem Candidate.mem_insert {c d : Candidate} {found : List Candidate}
    (member : d ∈ c.insert found) : d = c ∨ d ∈ found := by
  induction found with
  | nil => exact .inl (List.mem_singleton.mp member)
  | cons first rest ih =>
    rw [insert] at member
    split at member
    · exact List.mem_cons.mp member
    · split at member
      · rcases List.mem_cons.mp member with here | later
        · exact .inr (here ▸ List.mem_cons_self ..)
        · exact (ih later).imp_right (List.mem_cons_of_mem first)
      · exact .inr member

namespace NameIndex

def Among (d : Dict String (List Candidate)) (functions : List FunctionNode) : Prop :=
  ∀ name, ∀ c ∈ (d.get? name).getD [], ∃ f ∈ functions, .ofFunction f = c

theorem among_file {d : Dict String (List Candidate)} {front : List FunctionNode}
    (among : Among d front) (name : String) (f : FunctionNode) :
    Among (file d name (.ofFunction f)) (front ++ [f]) := by
  have kept : Among d (front ++ [f]) := by
    intro name c member
    rcases among name c member with ⟨g, inside, same⟩
    exact ⟨g, List.mem_append_left _ inside, same⟩
  intro other c member
  rw [file, Dict.get?_alter] at member
  split at member
  · rcases Candidate.mem_insert member with rfl | before
    · exact ⟨f, List.mem_append_right front (List.mem_singleton_self f), rfl⟩
    · exact kept name c before
  · exact kept other c member

theorem ofShards_eq (shards : List Shard) :
    ofShards shards = (shards.flatMap (·.functions)).foldl addFunction empty := by
  rw [List.foldl_flatMap]
  rfl

theorem among_foldl (functions : List FunctionNode) :
    Among (functions.foldl addFunction empty).byName functions ∧
      Among (functions.foldl addFunction empty).byQualified functions := by
  induction functions using List.reverseRecOn with
  | nil =>
    constructor
    all_goals
      intro name c member
      cases member
  | append_singleton front f ih =>
    rw [List.foldl_append]
    exact ⟨among_file ih.1 f.name f, among_file ih.2 f.qualifiedName f⟩

theorem mem_candidates {shards : List Shard} {target : String} {c : Candidate}
    (member : c ∈ (ofShards shards).candidates target) :
    ∃ f ∈ shards.flatMap (·.functions), .ofFunction f = c := by
  rw [ofShards_eq] at member
  rcases among_foldl (shards.flatMap (·.functions)) with ⟨byName, byQualified⟩
  generalize (shards.flatMap (·.functions)).foldl addFunction empty = index at *
  have simple : ∀ d ∈ (index.byName.get? (Text.lastSegment target)).getD [],
      ∃ f ∈ shards.flatMap (·.functions), .ofFunction f = d := byName _
  rw [candidates] at member
  split at member
  · exact simple c member
  · have qualified := byQualified (Text.dotted target) c
    cases found : index.byQualified.get? (Text.dotted target) with
    | none =>
      rw [found] at member
      exact simple c member
    | some others =>
      rw [found] at member qualified
      exact qualified member

end NameIndex

theorem mem_of_resolveTarget {file : String} {found : List Candidate} {c : Candidate}
    {how : Strategy} (picked : resolveTarget file found = some (c, how)) : c ∈ found := by
  match found with
  | [] => cases picked
  | [only] =>
    cases picked
    exact List.mem_singleton_self _
  | first :: second :: rest =>
    rw [resolveTarget] at picked
    · split at picked
      · next same =>
        cases picked
        exact List.mem_of_find?_eq_some same
      · cases picked
        exact List.mem_cons_self ..
    · simp

namespace CallEdge

theorem resolve_cases (e : CallEdge) (file : String) (index : NameIndex) :
    e.resolve file index = e.withOutcome (e.outcome file index) ∨
      e.resolve file index = e ∧
        e.resolvedOtherwise (e.withOutcome (e.outcome file index)) = false := by
  rw [resolve]
  cases differs : e.resolvedOtherwise (e.withOutcome (e.outcome file index)) with
  | true => exact .inl (if_pos rfl)
  | false => exact .inr ⟨by simp, rfl⟩

theorem resolve_outcome (e : CallEdge) (file : String) (index : NameIndex) :
    (e.resolve file index).resolved = (e.outcome file index).isSome ∧
      (e.resolve file index).resolvedId = (e.outcome file index).map (·.1.id) := by
  have taken : ∀ outcome, (e.withOutcome outcome).resolved = outcome.isSome ∧
      (e.withOutcome outcome).resolvedId = outcome.map (·.1.id) := by
    intro outcome
    cases outcome <;> exact ⟨rfl, rfl⟩
  rcases e.resolve_cases file index with changed | ⟨kept, same⟩
  · rw [changed]
    exact taken _
  · simp only [resolvedOtherwise, Bool.or_eq_false_iff, bne_eq_false_iff_eq] at same
    rw [kept, same.1.1, same.1.2]
    exact taken _

end CallEdge

theorem Strategy.legible (how : Strategy) :
    (Json.float how.confidence).reread.float? = some how.confidence := by
  cases how <;> decide +kernel

theorem legible_zero : (Json.float 0.0).reread.float? = some 0.0 := by
  decide +kernel

theorem legible_negativeZero : (Json.float (-0)).reread.float? = some (-0) := by
  decide +kernel

namespace CallEdge

theorem legible_withOutcome (e : CallEdge) (outcome : Option (Candidate × Strategy)) :
    (e.withOutcome outcome).Legible := by
  cases outcome with
  | none => exact legible_zero
  | some found => exact found.2.legible

/-- A confidence that equals that of the outcome is the same, but for the sign of zero. -/
theorem legible_of_equal {e e' : CallEdge} (legible : e'.Legible)
    (equal : (e.confidence == e'.confidence) = true) : e.Legible := by
  have zero : (0 : Float) = 0.0 := by decide +kernel
  rw [Legible]
  rcases (Float.beq_iff_ne_nan_and_eq.mp equal).2.2 with same | ⟨same, -⟩ | ⟨same, -⟩
  · rw [same]
    exact legible
  · rw [same, zero]
    exact legible_zero
  · rw [same]
    exact legible_negativeZero

theorem legible_resolve (e : CallEdge) (file : String) (index : NameIndex) :
    (e.resolve file index).Legible := by
  have legible := e.legible_withOutcome (e.outcome file index)
  rcases e.resolve_cases file index with changed | ⟨kept, same⟩
  · rwa [changed]
  · simp only [resolvedOtherwise, Bool.or_eq_false_iff, bne_eq_false_iff_eq] at same
    rw [kept]
    exact legible_of_equal legible (by simpa [bne] using same.2)

end CallEdge

namespace Shard

variable {s : Shard} {index : NameIndex}

theorem legible_resolve (s : Shard) (index : NameIndex) : (s.resolve index).Legible := by
  intro f' member e' call
  rcases List.mem_map.mp member with ⟨f, inside, rfl⟩
  rcases List.mem_map.mp call with ⟨e, own, rfl⟩
  exact CallEdge.legible_resolve e s.file index

theorem resolve_of_settled (settled : s.needsResolving index = false) : s.resolve index = s := by
  simp only [needsResolving, FunctionNode.needsResolving, List.any_eq_false] at settled
  have functions : s.functions.map (·.resolve s.file index) = s.functions := by
    refine (List.map_congr_left fun f inside => ?_).trans (List.map_id _)
    have calls : f.calls.map (·.resolve s.file index) = f.calls := by
      refine (List.map_congr_left fun e own => ?_).trans (List.map_id _)
      have same := settled f inside
      simp only [List.any_eq_true, not_exists, not_and] at same
      simp [CallEdge.resolve, same e own]
    rw [FunctionNode.resolve, calls]
    rfl
  rw [resolve, functions]

end Shard

end DataReach
