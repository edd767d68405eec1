import DataReach.Proofs.Store.Holds
import DataReach.Store.Resolver
/-!
A pass over a store goes from shard to shard, in batches, until it is done or cancelled. What one
step preserves holds wherever the pass ends; so a pass that meets no error changes every shard of the
map that the store holds.
-/

namespace DataReach.Pass

variable {α : Type} {p : Pass α}

def apply (p : Pass α) (shard : Shard) : Shard := (p.change shard).getD shard

/-- What a step does with the shard of a key: nothing is left to do, or the new shard is saved, or it
cannot be saved. -/
theorem step_cases {s : Store} {m : String → Option Shard} {key : String} {shard : Shard}
    (holds : s.Holds m) (stored : m key = some shard) (r : Outcome α) :
    ∃ cache, Store.Holds { s with cache } m ∧
      (p.change shard = none ∧
          p.step key r s = ({ r with data := p.visit r.data shard }, { s with cache }) ∨
        (∃ new own s', p.change shard = some new ∧
          Store.save new { s with cache } = (.ok own, s') ∧
          p.step key r s = ({ r with data := p.saved (p.visit r.data shard) }, s')) ∨
        ∃ new e s', p.change shard = some new ∧
          Store.save new { s with cache } = (.error e, s') ∧
          p.step key r s =
            (Outcome.add { r with data := p.visit r.data shard } (.graph (.storage e)), s')) := by
  rcases Store.load_holds holds stored with ⟨cache, loaded, kept⟩
  refine ⟨cache, kept, ?_⟩
  rw [step, Store.run_bind, loaded]
  cases changed : p.change shard with
  | none =>
    refine .inl ⟨rfl, ?_⟩
    simp only [changed]
    rfl
  | some new =>
    simp only [changed]
    rw [Store.run_bind]
    rcases saving : Store.save new { s with cache } with ⟨outcome, last⟩
    cases outcome with
    | ok own => exact .inr (.inl ⟨new, own, last, rfl, saving, rfl⟩)
    | error e => exact .inr (.inr ⟨new, e, last, rfl, saving, rfl⟩)

theorem step_errors (p : Pass α) (key : String) (r : Outcome α) (s : Store) :
    r.errors <+: (p.step key r s).1.errors := by
  rw [step, Store.run_bind]
  rcases Store.load key s with ⟨found, loaded⟩
  cases found with
  | none => exact List.prefix_rfl
  | some shard =>
    cases changed : p.change shard with
    | none =>
      simp only [changed]
      exact List.prefix_rfl
    | some new =>
      simp only [changed]
      rw [Store.run_bind]
      rcases Store.save new loaded with ⟨outcome, saved⟩
      cases outcome with
      | ok own => exact List.prefix_rfl
      | error e => exact List.prefix_append _ _

theorem step_failed {r : Outcome α} (failed : r.errors ≠ []) (key : String) (s : Store) :
    (p.step key r s).1.errors ≠ [] := by
  intro clean
  have kept := p.step_errors key r s
  rw [clean] at kept
  exact failed (List.prefix_nil.mp kept)

/-! ### What holds all along -/

/-- A property of the keys that a pass is done with, of what it found and of the store, that each of
its actions preserves. -/
structure Invariant (p : Pass α) (ks : List String)
    (I : List String → Outcome α → Store → Prop) : Prop where
  step : ∀ {done key r s}, key ∈ ks → key ∉ done → I done r s →
    I (done ++ [key]) (p.step key r s).1 (p.step key r s).2
  evict : ∀ {done r s} (key : String), I done r s → I done r (Store.evict key s).2
  batchDone : ∀ {done r s}, I done r s → I done { r with data := p.batchDone r.data } s

section Invariant

variable {ks : List String} {I : List String → Outcome α → Store → Prop}

theorem steps_invariant (inv : p.Invariant ks I) {keys done : List String} {r : Outcome α}
    {s : Store} (fresh : (done ++ keys).Nodup) (inside : ∀ k ∈ keys, k ∈ ks) (start : I done r s) :
    I (done ++ keys) (p.steps keys r s).1 (p.steps keys r s).2 := by
  induction keys generalizing done r s with
  | nil => rwa [List.append_nil]
  | cons key rest ih =>
    have notDone : key ∉ done := by
      intro before
      exact (List.nodup_append.mp fresh).2.2 key before key (List.mem_cons_self ..) rfl
    have regrouped : done ++ key :: rest = (done ++ [key]) ++ rest := by simp
    rw [regrouped] at fresh ⊢
    rw [steps, Store.run_bind]
    exact ih fresh (fun k later => inside k (List.mem_cons_of_mem key later))
      (inv.step (inside key (List.mem_cons_self ..)) notDone start)

theorem evictEach_invariant (inv : p.Invariant ks I) {done : List String} {r : Outcome α}
    (keys : List String) {s : Store} (start : I done r s) :
    I done r (Store.evictEach keys s).2 := by
  induction keys generalizing s with
  | nil => exact start
  | cons key rest ih =>
    rw [Store.evictEach, Store.run_bind]
    exact ih (inv.evict key start)

theorem batch_invariant (inv : p.Invariant ks I) {keys done : List String} {r : Outcome α}
    {s : Store} (fresh : (done ++ keys).Nodup) (inside : ∀ k ∈ keys, k ∈ ks) (start : I done r s) :
    I (done ++ keys) (p.batch keys r s).1 (p.batch keys r s).2 := by
  rw [batch, Store.run_bind, Store.run_bind]
  exact inv.batchDone (evictEach_invariant inv keys (steps_invariant inv fresh inside start))

theorem batches_invariant (inv : p.Invariant ks I) {batches : List (List String)}
    {done : List String} {n : Nat} {patience : Patience} {r : Outcome α} {s : Store}
    (fresh : (done ++ batches.flatten).Nodup) (inside : ∀ k ∈ batches.flatten, k ∈ ks)
    (start : I done r s) :
    (∃ r' left s', p.batches n patience batches r s = (.ok (r', left), s') ∧
        (patience = none → left = none) ∧ I (done ++ batches.flatten) r' s') ∨
      ∃ count visited r' s', p.batches n patience batches r s = (.error (.cancelled count), s') ∧
        patience ≠ none ∧ I visited r' s' := by
  induction batches generalizing n patience done r s with
  | nil =>
    refine .inl ⟨r, patience, s, rfl, id, ?_⟩
    rwa [List.flatten_nil, List.append_nil]
  | cons keys rest ih =>
    rw [List.flatten_cons] at fresh inside ⊢
    rw [← List.append_assoc] at fresh ⊢
    have visited := batch_invariant inv (List.nodup_append.mp fresh).1
      (fun k member => inside k (List.mem_append_left _ member)) start
    rw [Pass.batches, Store.run_bind]
    cases patience with
    | none =>
      rcases @ih _ (n + 1) none _ _ fresh (fun k later => inside k (List.mem_append_right keys later))
        visited with complete | ⟨_, _, _, _, _, endless, _⟩
      · exact .inl complete
      · exact absurd rfl endless
    | some budget =>
      cases budget with
      | zero => exact .inr ⟨n + 1, _, _, _, rfl, nofun, visited⟩
      | succ budget =>
        rcases @ih _ (n + 1) (some budget) _ _ fresh
          (fun k later => inside k (List.mem_append_right keys later)) visited with
          ⟨r', left, s', ran, -, last⟩ | ⟨count, seen, r', s', ran, -, last⟩
        · exact .inl ⟨r', left, s', ran, nofun, last⟩
        · exact .inr ⟨count, seen, r', s', ran, nofun, last⟩

theorem run_invariant (inv : p.Invariant ks I) {batchSize : Nat} {patience : Patience} {a : α}
    {s : Store} (listed : s.keys = .ok ks) (once : ks.Nodup) (start : I [] (.clean a) s) :
    (∃ r left s', p.run batchSize patience a s = (.ok (r, left), s') ∧
        (patience = none → left = none) ∧ I ks r s') ∨
      ∃ count visited r s', p.run batchSize patience a s = (.error (.cancelled count), s') ∧
        patience ≠ none ∧ I visited r s' := by
  have all := Store.flatten_chunks batchSize ks
  have fresh : ([] ++ (chunks batchSize ks).flatten).Nodup := by rwa [List.nil_append, all]
  have inside : ∀ k ∈ (chunks batchSize ks).flatten, k ∈ ks := by
    rw [all]
    exact fun _ member => member
  have ran := @batches_invariant _ _ _ _ inv _ [] 0 patience _ _ fresh inside start
  rw [List.nil_append, all] at ran
  rw [run, Store.run_bind, Store.run_get]
  simp only [listed]
  exact ran

end Invariant

/-! ### The map that a pass leaves -/

def applied (p : Pass α) (m : String → Option Shard) (done : List String) :
    String → Option Shard :=
  fun k => if k ∈ done then (m k).map p.apply else m k

def Keeps (p : Pass α) (m : String → Option Shard) : Prop :=
  ∀ key shard, m key = some shard → (p.apply shard).Legible ∧ (p.apply shard).key = shard.key

section Applied

variable {m : String → Option Shard} {ks : List String}

theorem applied_nil (p : Pass α) (m : String → Option Shard) : p.applied m [] = m := by
  funext k
  simp [applied]

theorem applied_append {done : List String} {key : String} {shard : Shard}
    (stored : m key = some shard) :
    Function.update (p.applied m done) key (some (p.apply shard)) =
      p.applied m (done ++ [key]) := by
  funext k
  by_cases same : k = key
  · simp [applied, same, stored]
  · simp [applied, same]

theorem applied_all (members : ∀ k, k ∈ ks ↔ m k ≠ none) :
    p.applied m ks = fun k => (m k).map p.apply := by
  funext k
  by_cases member : k ∈ ks
  · simp [applied, member]
  · have absent : m k = none := by simpa [members k] using member
    simp [applied, member, absent]

theorem applied_next {done : List String} {key : String} {shard : Shard} (fresh : key ∉ done)
    (stored : m key = some shard) : p.applied m done key = some shard := by
  rw [applied, if_neg fresh, stored]

theorem apply_of_change {shard : Shard} (unchanged : p.change shard = none) :
    p.apply shard = shard := by
  rw [apply, unchanged, Option.getD_none]

theorem apply_eq {shard new : Shard} (changed : p.change shard = some new) :
    p.apply shard = new := by
  rw [apply, changed, Option.getD_some]

theorem save_applied (keeps : p.Keeps m) {done : List String} {key own : String}
    {shard new : Shard} {s s' : Store} (holds : s.Holds (p.applied m done))
    (keyed : shard.key = key) (stored : m key = some shard) (changed : p.change shard = some new)
    (saved : Store.save new s = (.ok own, s')) : s'.Holds (p.applied m (done ++ [key])) := by
  have kept := keeps key shard stored
  rw [apply_eq changed, keyed] at kept
  have held := Store.save_holds holds kept.1 saved
  rwa [kept.2, ← apply_eq changed, applied_append stored] at held

/-- As long as there is no error, the shards of the keys that are done have changed. -/
theorem invariant_applied (keeps : p.Keeps m) (members : ∀ k, k ∈ ks ↔ m k ≠ none) :
    p.Invariant ks fun done r s => r.errors ≠ [] ∨ s.Holds (p.applied m done) where
  step := by
    intro done key r s member fresh before
    rcases Option.ne_none_iff_exists'.mp ((members key).mp member) with ⟨shard, stored⟩
    rcases before with failed | holds
    · exact .inl (step_failed failed key s)
    · have current := applied_next (p := p) fresh stored
      rcases step_cases holds current r with ⟨cache, kept, ⟨unchanged, stepped⟩ |
        ⟨new, own, s', changed, saved, stepped⟩ | ⟨new, e, s', -, -, stepped⟩⟩
      · right
        rw [stepped, ← applied_append stored, apply_of_change unchanged, ← current,
          Function.update_eq_self]
        exact kept
      · right
        rw [stepped]
        exact save_applied keeps kept (holds.keyed key shard current) stored changed saved
      · left
        rw [stepped]
        simp [Outcome.add]
  evict := by
    intro done r s key before
    refine before.imp_right fun holds => ?_
    rcases Store.evict_holds holds key with ⟨cache, evicted, kept⟩
    rwa [evicted]
  batchDone := id

theorem run_holds (keeps : p.Keeps m) {batchSize : Nat} {patience left : Patience} {a : α}
    {r : Outcome α} {s s' : Store} (holds : s.Holds m)
    (ran : p.run batchSize patience a s = (.ok (r, left), s')) (clean : r.errors = []) :
    s'.Holds fun k => (m k).map p.apply := by
  rcases holds.listed with ⟨ks, listed, ascending, members⟩
  have once : ks.Nodup := ascending.imp fun less => String.ne_of_lt less
  have start := (applied_nil p m).symm ▸ holds
  rcases run_invariant (invariant_applied keeps members) listed once (.inr start) with
    ⟨r', left', last, same, -, done⟩ | ⟨count, visited, r', last, same, -⟩
  · rw [ran] at same
    cases same
    rw [← applied_all members]
    exact done.resolve_left fun failed => failed clean
  · rw [ran] at same
    cases same

end Applied

end DataReach.Pass
