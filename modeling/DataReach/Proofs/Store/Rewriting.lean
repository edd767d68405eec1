import DataReach.Proofs.Store.Passes
/-!
What was saved once can be saved again. Only a directory can be in the way of a document, and writing
documents leaves the directories as they are; so a pass over shards that were saved meets no error.
-/

namespace DataReach

namespace Store

variable {s s' : Store} {m : String → Option Shard}

def Writable (s : Store) (m : String → Option Shard) : Prop :=
  ∀ key (plain : '/' ∉ key.toList), m key ≠ none →
    Disk.Replaceable s.disk (filesDir s.root) (draftName (docName key plain)) (docName key plain)

theorem save_succeeds (writable : Writable s m) {shard : Shard} (stored : m shard.key ≠ none) :
    ∃ s', save shard s = (.ok shard.key, s') := by
  have plain : '/' ∉ shard.key.toList := plain_shardKey shard.file
  rcases writeDocument_succeeds (proper_docName plain) (writable shard.key plain stored)
    (shardDocument shard) with ⟨written, outcome⟩
  refine ⟨{ written with cache := written.cache.insert shard.key shard }, ?_⟩
  rw [← shardPath_eq s.root plain] at outcome
  unfold save
  rw [outcome]

theorem writable_saved (writable : Writable s m) (new : Shard) {shard : Shard} {key : String}
    (saved : save shard s = (.ok key, s')) :
    Writable s' (Function.update m shard.key (some new)) := by
  have plain : '/' ∉ shard.key.toList := plain_shardKey shard.file
  rcases save_ok saved with ⟨written, outcome, rfl⟩
  rw [shardPath_eq s.root plain] at outcome
  rcases writeDocument_ok (proper_docName plain) outcome with
    ⟨replaceable, there, children, d', rfl, -, edited⟩
  intro k plainK stored
  apply Disk.replaceable_congr edited.directories
  by_cases own : k = shard.key
  · subst own
    exact replaceable
  · rw [Function.update_of_ne own] at stored
    exact writable k plainK stored

/-- A store holds a map whose shards it can write anew. -/
structure Lasts (s : Store) (m : String → Option Shard) : Prop where
  holds : s.Holds m
  writable : s.Writable m

theorem lasts_evict (lasts : Lasts s m) (key : String) : Lasts (evict key s).2 m := by
  rcases evict_holds lasts.holds key with ⟨cache, evicted, kept⟩
  rw [evicted]
  exact ⟨kept, lasts.writable⟩

end Store

namespace Pass

variable {α : Type} {p : Pass α} {m : String → Option Shard} {D : α → Prop}

/-- A property of what a pass counts that stays while it goes over the shards of a map. -/
structure Tallies (p : Pass α) (m : String → Option Shard) (D : α → Prop) : Prop where
  visit : ∀ a shard, D a → D (p.visit a shard)
  saved : ∀ a key shard new, m key = some shard → p.change shard = some new → D a → D (p.saved a)
  batchDone : ∀ a, D a → D (p.batchDone a)

theorem invariant_lasts (keeps : p.Keeps m) (tallies : p.Tallies m D) {ks : List String}
    (members : ∀ k, k ∈ ks ↔ m k ≠ none) :
    p.Invariant ks fun done r s => r.errors = [] ∧ D r.data ∧ s.Lasts (p.applied m done) where
  step := by
    intro done key r s member fresh before
    rcases before with ⟨clean, counted, lasts⟩
    rcases Option.ne_none_iff_exists'.mp ((members key).mp member) with ⟨shard, stored⟩
    have current := applied_next (p := p) fresh stored
    have keyed := lasts.holds.keyed key shard current
    have sameKey : ∀ new, p.change shard = some new → new.key = key := by
      intro new changed
      rw [← apply_eq changed, (keeps key shard stored).2, keyed]
    rcases step_cases lasts.holds current r with ⟨cache, kept, ⟨unchanged, stepped⟩ |
      ⟨new, own, s', changed, saved, stepped⟩ | ⟨new, e, s', changed, failed, -⟩⟩
    all_goals have writable : Store.Writable { s with cache } (p.applied m done) := lasts.writable
    · rw [stepped, ← applied_append stored, apply_of_change unchanged, ← current,
        Function.update_eq_self]
      exact ⟨clean, tallies.visit _ _ counted, kept, writable⟩
    · rw [stepped]
      refine ⟨clean, tallies.saved _ key shard new stored changed (tallies.visit _ _ counted),
        save_applied keeps kept keyed stored changed saved, ?_⟩
      have again := Store.writable_saved writable (p.apply shard) saved
      rwa [sameKey new changed, applied_append stored] at again
    · -- The shard has a document already, and that can be written anew.
      have there : p.applied m done new.key ≠ none := by
        rw [sameKey new changed, current]
        exact Option.some_ne_none shard
      rcases Store.save_succeeds writable there with ⟨last, saved⟩
      rw [failed] at saved
      cases saved
  evict := fun key before => ⟨before.1, before.2.1, Store.lasts_evict before.2.2 key⟩
  batchDone := fun before => ⟨before.1, tallies.batchDone _ before.2.1, before.2.2⟩

/-- A pass over shards that can be written anew changes all of them, or was cancelled when it had
changed some. -/
theorem run_lasts (keeps : p.Keeps m) (tallies : p.Tallies m D) {batchSize : Nat}
    {patience : Patience} {a : α} {s : Store} (lasts : s.Lasts m) (start : D a) :
    (∃ r left s', p.run batchSize patience a s = (.ok (r, left), s') ∧
        (patience = none → left = none) ∧ r.errors = [] ∧ D r.data ∧
        s'.Lasts fun k => (m k).map p.apply) ∨
      ∃ count visited s', p.run batchSize patience a s = (.error (.cancelled count), s') ∧
        patience ≠ none ∧ s'.Lasts (p.applied m visited) := by
  rcases lasts.holds.listed with ⟨ks, listed, ascending, members⟩
  have once : ks.Nodup := ascending.imp fun less => String.ne_of_lt less
  have untouched : s.Lasts (p.applied m []) := (applied_nil p m).symm ▸ lasts
  rw [← applied_all members]
  rcases run_invariant (invariant_lasts keeps tallies members) listed once ⟨rfl, start, untouched⟩
    with ⟨r, left, s', ran, endless, clean, counted, last⟩ |
      ⟨count, visited, r, s', ran, bounded, -, -, last⟩
  · exact .inl ⟨r, left, s', ran, endless, clean, counted, last⟩
  · exact .inr ⟨count, visited, s', ran, bounded, last⟩

end Pass

end DataReach
