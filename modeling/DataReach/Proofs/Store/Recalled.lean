import DataReach.Proofs.Plain
import DataReach.Proofs.Store.Holds
/-!
What comes back of functions that were saved. As long as their shard is cached they come back as they
were. Read from a document, each call has the confidence that its numeral reads as.
-/

namespace DataReach

def CallEdge.Recalled (e e' : CallEdge) : Prop := e' = e ∨ e.reread? = some e'

def FunctionNode.Recalled (f f' : FunctionNode) : Prop :=
  f' = { f with calls := f'.calls } ∧ List.Forall₂ CallEdge.Recalled f.calls f'.calls

def Shard.Recalled (s s' : Shard) : Prop :=
  s' = { s with functions := s'.functions } ∧
    List.Forall₂ FunctionNode.Recalled s.functions s'.functions

def Question.Recalled : (q : Question) → q.Answer → q.Answer → Prop
  | .function _, r, r' => Option.Rel FunctionNode.Recalled r r'
  | .inFile _, r, r' | .named _, r, r' | .accessing .., r, r' =>
    List.Forall₂ FunctionNode.Recalled r r'
  | .isBuilt, r, r' => r' = r
  | .location, r, r' => r' = r

theorem map_of_forall₂ {α β γ : Type} {R : α → β → Prop} {g : α → γ} {h : β → γ} {xs : List α}
    {ys : List β} (related : List.Forall₂ R xs ys) (same : ∀ x y, R x y → h y = g x) :
    ys.map h = xs.map g := by
  have pointwise : List.Forall₂ (· = ·) (xs.map g) (ys.map h) := by
    rw [List.forall₂_map_left_iff, List.forall₂_map_right_iff]
    exact related.imp fun x y own => (same x y own).symm
  rw [List.forall₂_eq_eq_eq] at pointwise
  exact pointwise.symm

/-! ### Edges -/

namespace CallEdge

variable {e e' : CallEdge}

theorem Recalled.plain (recalled : e.Recalled e') : e'.plain = e.plain := by
  rcases recalled with rfl | read
  · rfl
  · obtain ⟨confidence, -, rfl⟩ := Option.map_eq_some_iff.mp read
    rfl

end CallEdge

/-! ### Functions and shards -/

namespace FunctionNode

variable {f f' : FunctionNode}

theorem recalled_refl (f : FunctionNode) : f.Recalled f :=
  ⟨rfl, List.forall₂_same.mpr fun _ _ => .inl rfl⟩

theorem recalled_of_reread (read : f.reread? = some f') : f.Recalled f' := by
  obtain ⟨calls, edges, rfl⟩ := Option.map_eq_some_iff.mp read
  exact ⟨rfl, (forall₂_of_mapM edges).imp fun _ _ => .inr⟩

theorem Recalled.plain (recalled : f.Recalled f') : f'.plain = f.plain := by
  have calls := map_of_forall₂ recalled.2 fun _ _ => CallEdge.Recalled.plain
  rw [FunctionNode.plain, calls, recalled.1]
  rfl

end FunctionNode

namespace Shard

variable {s s' : Shard}

theorem recalled_refl (s : Shard) : s.Recalled s :=
  ⟨rfl, List.forall₂_same.mpr fun f _ => f.recalled_refl⟩

theorem recalled_of_reread (read : s.reread? = some s') : s.Recalled s' := by
  obtain ⟨functions, made, rfl⟩ := Option.map_eq_some_iff.mp read
  exact ⟨rfl, (forall₂_of_mapM made).imp fun _ _ => FunctionNode.recalled_of_reread⟩

theorem Recalled.plain (recalled : s.Recalled s') : s'.plain = s.plain := by
  have functions := map_of_forall₂ recalled.2 fun _ _ => FunctionNode.Recalled.plain
  rw [Shard.plain, functions, recalled.1]
  rfl

theorem plain_reread (read : s.reread? = some s') : s'.plain = s.plain :=
  (recalled_of_reread read).plain

end Shard

theorem Question.plain_of_recalled {q : Question} {r r' : q.Answer} (recalled : q.Recalled r r') :
    q.plain r' = q.plain r := by
  cases q with
  | function id =>
    cases recalled with
    | none => rfl
    | some own => exact congrArg some own.plain
  | inFile | named | accessing =>
    exact map_of_forall₂ recalled fun _ _ => FunctionNode.Recalled.plain
  | isBuilt | location => exact recalled

end DataReach
