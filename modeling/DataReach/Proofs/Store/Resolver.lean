import DataReach.Proofs.Callers
import DataReach.Proofs.Resolution
import DataReach.Proofs.Store.Passes
/-!
The two passes of resolving: what they leave in place of a shard, and that it can be read back.
-/

namespace DataReach

theorem Shard.legible_withCallers {s : Shard} (legible : s.Legible) (m : CallerMap) :
    (s.withCallers m).Legible := by
  intro f' member e call
  rcases List.mem_map.mp member with ⟨f, own, rfl⟩
  exact legible f own e call

namespace Pass

theorem resolving_apply (index : NameIndex) :
    (resolving index).apply = (·.resolve index) := by
  funext shard
  cases needed : shard.needsResolving index with
  | true => simp [apply, resolving, needed]
  | false => simp [apply, resolving, needed, Shard.resolve_of_settled needed]

theorem givingCallers_apply (m : CallerMap) :
    (givingCallers m).apply = (·.withCallers m) := by
  funext shard
  cases needed : shard.needsCallers m with
  | true => simp [apply, givingCallers, needed]
  | false => simp [apply, givingCallers, needed, Shard.withCallers_of_settled needed]

theorem resolving_keeps (index : NameIndex) (shard : Shard) :
    ((resolving index).apply shard).Legible ∧ ((resolving index).apply shard).key = shard.key := by
  rw [resolving_apply]
  exact ⟨shard.legible_resolve index, rfl⟩

theorem givingCallers_keeps (m : CallerMap) {shard : Shard} (legible : shard.Legible) :
    ((givingCallers m).apply shard).Legible ∧ ((givingCallers m).apply shard).key = shard.key := by
  rw [givingCallers_apply]
  exact ⟨Shard.legible_withCallers legible m, rfl⟩

end Pass

end DataReach
