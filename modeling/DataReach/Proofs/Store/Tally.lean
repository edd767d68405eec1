import DataReach.Proofs.Store.Resolver
/-!
What a pass counts. Without errors it is what the shards of the store amount to, one after the other,
if one overlooks how many batches they were visited in.
-/

namespace DataReach

namespace Pass

variable {α β : Type} {p : Pass α} {view : α → β}

def count (p : Pass α) (a : α) (shard : Shard) : α :=
  match p.change shard with
  | none => p.visit a shard
  | some _ => p.saved (p.visit a shard)

def tally (p : Pass α) (start : α) (shards : List Shard) : α := shards.foldl p.count start

/-- A view of what is counted that the end of a batch does not change. -/
structure Overlooks (p : Pass α) (view : α → β) : Prop where
  visit : ∀ {a b} shard, view a = view b → view (p.visit a shard) = view (p.visit b shard)
  saved : ∀ {a b}, view a = view b → view (p.saved a) = view (p.saved b)
  batchDone : ∀ a, view (p.batchDone a) = view a

section Run

variable {m : String → Option Shard} {ks : List String} {start : α}

theorem tally_append {done : List String} {key : String} {shard : Shard}
    (stored : m key = some shard) :
    p.tally start ((done ++ [key]).filterMap m) =
      p.count (p.tally start (done.filterMap m)) shard := by
  simp [tally, stored]

/-- As long as there is no error, the shards of the keys that are done have been counted. -/
theorem invariant_tally (overlooks : p.Overlooks view) (keeps : p.Keeps m)
    (members : ∀ k, k ∈ ks ↔ m k ≠ none) :
    p.Invariant ks fun done r s => (r.errors ≠ [] ∨ s.Holds (p.applied m done)) ∧
      (r.errors ≠ [] ∨ view r.data = view (p.tally start (done.filterMap m))) where
  step := by
    intro done key r s member fresh before
    refine ⟨(invariant_applied keeps members).step member fresh before.1, ?_⟩
    rcases Option.ne_none_iff_exists'.mp ((members key).mp member) with ⟨shard, stored⟩
    rcases before with ⟨failed | holds, failed | counted⟩
    · exact .inl (step_failed failed key s)
    · exact .inl (step_failed failed key s)
    · exact .inl (step_failed failed key s)
    · have current := applied_next (p := p) fresh stored
      rw [tally_append stored, count]
      rcases step_cases holds current r with ⟨cache, -, ⟨unchanged, stepped⟩ |
        ⟨new, own, s', changed, -, stepped⟩ | ⟨new, e, s', -, -, stepped⟩⟩
      · right
        rw [stepped, unchanged]
        exact overlooks.visit shard counted
      · right
        rw [stepped, changed]
        exact overlooks.saved (overlooks.visit shard counted)
      · left
        rw [stepped]
        simp [Outcome.add]
  evict := by
    intro done r s key before
    exact ⟨(invariant_applied keeps members).evict key before.1, before.2⟩
  batchDone := by
    intro done r s before
    refine ⟨before.1, before.2.imp_right fun counted => ?_⟩
    exact (overlooks.batchDone r.data).trans counted

theorem run_tally (overlooks : p.Overlooks view) (keeps : p.Keeps m) {batchSize : Nat}
    {patience left : Patience} {r : Outcome α} {s s' : Store} (holds : s.Holds m)
    (listed : s.keys = .ok ks) (ran : p.run batchSize patience start s = (.ok (r, left), s'))
    (clean : r.errors = []) : view r.data = view (p.tally start (ks.filterMap m)) := by
  rcases holds.listed with ⟨all, same, ascending, members⟩
  rw [listed] at same
  cases same
  have once : ks.Nodup := ascending.imp fun less => String.ne_of_lt less
  have begun := (applied_nil p m).symm ▸ holds
  rcases run_invariant (invariant_tally overlooks keeps members) listed once
    ⟨.inr begun, .inr rfl⟩ with ⟨r', left', last, same, -, -, counted⟩ |
      ⟨count, visited, r', last, same, -⟩
  · rw [ran] at same
    cases same
    exact counted.resolve_left fun failed => failed clean
  · rw [ran] at same
    cases same

end Run

end Pass

def Diagnostics.unbatched (d : Diagnostics) : Diagnostics := { d with batches := 0 }

theorem Diagnostics.unbatched_record (d : Diagnostics) (outcome : Option Strategy) :
    (d.record outcome).unbatched = d.unbatched.record outcome := by
  cases outcome <;> rfl

theorem Shard.unbatched_diagnose (shard : Shard) (index : NameIndex) (d : Diagnostics) :
    (shard.diagnose index d).unbatched = shard.diagnose index d.unbatched := by
  rw [diagnose, diagnose]
  generalize shard.functions.flatMap (·.calls) = edges
  induction edges generalizing d with
  | nil => rfl
  | cons e rest ih => rw [List.foldl_cons, ih, Diagnostics.unbatched_record, List.foldl_cons]

theorem Pass.overlooks_resolving (index : NameIndex) :
    (Pass.resolving index).Overlooks Diagnostics.unbatched where
  visit := by
    intro a b shard same
    exact (shard.unbatched_diagnose index a).trans (same ▸ (shard.unbatched_diagnose index b).symm)
  saved := by
    intro a b same
    have more : ∀ d : Diagnostics, ((Pass.resolving index).saved d).unbatched =
        { d.unbatched with shardsChanged := d.unbatched.shardsChanged + 1 } := fun _ => rfl
    rw [more, more, same]
  batchDone := fun _ => rfl

end DataReach
