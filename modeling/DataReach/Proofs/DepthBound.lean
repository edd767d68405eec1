import DataReach.Proofs.Impact.DataPaths
import DataReach.Proofs.Reach.Truncation
/-!
A bound on the depth only truncates: what an analysis lists under it is what it lists under a
greater bound, or under none, less what lies deeper. Of the affected functions one thing is left
out of account, whether they reach sensitive data, which is asked with the bound too.
-/

namespace DataReach

namespace AffectedFunction

def unflagged (a : AffectedFunction) : AffectedFunction := { a with accessesSensitiveData := false }

theorem before_asymm : Std.Asymm Before where
  asymm := by
    intro a b first second
    rcases first with less | ⟨same, less⟩ <;> rcases second with less' | ⟨same', less'⟩
    · omega
    · omega
    · omega
    · exact String.lt_asymm less less'

end AffectedFunction

namespace Impact

section Truncate

variable {g : CallGraph} {c : Classifier} {changed : List FunctionNode} {d : Nat} {m : Option Nat}

theorem callersOf_truncate (present : ∀ f ∈ changed, g.function? f.id = some f)
    (distinct : changed.Nodup) (within : d ≤ m.getD depthLimit) :
    (callersOf changed (some d)).eval g.answers =
      ((callersOf changed m).eval g.answers).filter fun r => decide (r.depth ≤ d) := by
  obtain ⟨found, unwound⟩ := Backward.climb_truncate (fun _ => false) present distinct within
  simp only [callersOf, Inquiry.eval_bind, Inquiry.eval_pure, List.filter_map, Function.comp_def]
  rw [List.filter_comm, ← found]
  refine List.map_congr_left fun e member => ?_
  rw [unwound e (List.mem_of_mem_filter member)]

theorem mem_unflagged_iff {a : AffectedFunction} :
    a ∈ (affectedBy g c m changed).map AffectedFunction.unflagged ↔
      ∃ r ∈ (callersOf changed m).eval g.answers,
        AffectedFunction.ofFunction r.node r.depth false r.path = a := by
  rw [(affectedBy_perm.map _).mem_iff, List.map_map, List.mem_map]
  rfl

theorem affectedBy_truncate (present : ∀ f ∈ changed, g.function? f.id = some f)
    (distinct : changed.Nodup) (within : d ≤ m.getD depthLimit) :
    (affectedBy g c (some d) changed).map AffectedFunction.unflagged =
      ((affectedBy g c m changed).map AffectedFunction.unflagged).filter
        fun a => decide (a.depth ≤ d) := by
  have asymm := AffectedFunction.before_asymm
  have sorted : ∀ m, ((affectedBy g c m changed).map AffectedFunction.unflagged).Pairwise
      AffectedFunction.Before :=
    fun m => List.pairwise_map.mpr (sorted_affectedBy present distinct)
  refine (sorted (some d)).eq_of_mem_iff ((sorted m).filter _) fun a => ?_
  rw [List.mem_filter, mem_unflagged_iff, mem_unflagged_iff,
    callersOf_truncate present distinct within, decide_eq_true_eq]
  constructor
  · intro given
    obtain ⟨r, kept, rfl⟩ := given
    obtain ⟨caller, near⟩ := List.mem_filter.mp kept
    exact ⟨⟨r, caller, rfl⟩, of_decide_eq_true near⟩
  · intro given
    obtain ⟨⟨r, caller, rfl⟩, near⟩ := given
    exact ⟨r, List.mem_filter.mpr ⟨caller, decide_eq_true near⟩, rfl⟩

theorem affected_analyze_nil (c : Classifier) (maxDepth : Option Nat) (target : String) :
    ((analyze c maxDepth target []).eval g.answers).affected = [] := by
  by_cases built : g.functions.isEmpty <;>
    simp [analyze, Inquiry.missing?, CallGraph.answers, built]

theorem affected_truncate (c : Classifier) (change : Change) (within : d ≤ m.getD depthLimit) :
    ((change.impact c (some d)).eval g.answers).affected.map AffectedFunction.unflagged =
      (((change.impact c m).eval g.answers).affected.filter
        fun a => decide (a.depth ≤ d)).map AffectedFunction.unflagged := by
  rw [change.eval_impact, change.eval_impact]
  have present := change.present g
  generalize change.functions g = changed at present
  by_cases nonempty : changed = []
  · rw [nonempty, affected_analyze_nil, affected_analyze_nil]
    rfl
  · have held : ∀ f ∈ distinctById changed, g.function? f.id = some f := fun f member =>
      present f ((mem_distinctById present f).mp member)
    rw [eval_analyze g c _ _ nonempty present, eval_analyze g c _ _ nonempty present,
      affected_ofChanged, affected_ofChanged,
      affectedBy_truncate held (nodup_distinctById changed) within, List.filter_map]
    rfl

end Truncate

end Impact

/-- Under the bound `d` each analysis lists what it lists under `m` down to depth `d`, in the same
order, by the same paths and with the same accessors. -/
structure Truncates (g : CallGraph) (d : Nat) (m : Option Nat) : Prop where
  fromFunction : ∀ c (o : ReachOptions) id,
    ((Reach.fromFunction c { o with maxDepth := some d } id).eval g.answers).accesses =
      ((Reach.fromFunction c { o with maxDepth := m } id).eval g.answers).accesses.filter
        fun a => decide (a.depth ≤ d)
  fromLine : ∀ c (o : ReachOptions) file line,
    ((Reach.fromLine c { o with maxDepth := some d } file line).eval g.answers).accesses =
      ((Reach.fromLine c { o with maxDepth := m } file line).eval g.answers).accesses.filter
        fun a => decide (a.depth ≤ d)
  affected : ∀ c (change : Impact.Change),
    ((change.impact c (some d)).eval g.answers).affected.map AffectedFunction.unflagged =
      (((change.impact c m).eval g.answers).affected.filter
        fun a => decide (a.depth ≤ d)).map AffectedFunction.unflagged
  toData : ∀ table field,
    ((InverseReach.toData table field (some d)).eval g.answers).paths =
      ((InverseReach.toData table field m).eval g.answers).paths.filter
        fun p => decide (p.path.length ≤ d + 1)

namespace Truncates

variable {g : CallGraph} {d : Nat} {m : Option Nat}

theorem of_le (within : d ≤ m.getD depthLimit) : Truncates g d m where
  fromFunction := by
    intro c o id
    simp only [Reach.eval_fromFunction]
    split
    · rfl
    · exact Reach.forward_truncate within id
  fromLine := by
    intro c o file line
    simp only [Reach.eval_fromLine]
    split
    · rfl
    · split
      · rfl
      · exact Reach.forward_truncate within _
  affected := fun c change => Impact.affected_truncate c change within
  toData := fun _ _ => InverseReach.paths_truncate within

end Truncates

/-- A bound truncates what is listed without one, and what is listed under any greater one: with
the bound every list grows by what lies deeper. -/
theorem depth_truncates (g : CallGraph) (d : UInt32) :
    Truncates g d.toNat none ∧ ∀ e : UInt32, d ≤ e → Truncates g d.toNat (some e.toNat) := by
  constructor
  · exact .of_le (Nat.le_pred_of_lt d.toNat_lt_size)
  · intro e within
    exact .of_le (UInt32.le_iff_toNat_le.mp within)

/-- The function at depth 0 calls itself and the reader of a table at depth 1. -/
theorem depth_truncates_loop :
    (0 : UInt32) ≤ 1 ∧ Truncates Reach.loopGraph 0 none ∧ Truncates Reach.loopGraph 0 (some 1) := by
  have below : (0 : UInt32) ≤ 1 := by decide
  obtain ⟨unbounded, greater⟩ := depth_truncates Reach.loopGraph 0
  exact ⟨below, unbounded, greater 1 below⟩

end DataReach
