import DataReach.Proofs.Convergence
import DataReach.Proofs.Store.Derived
import DataReach.Proofs.Store.Settings
import DataReach.Proofs.Store.Tally
/-!
Builds that give the same. What a build leaves and reports follows from the shards of its inputs, in
whatever order and batches they come; the store from before has no say in it.
-/

namespace DataReach

/-- A result but for the errors and for the number of batches. -/
def BuildResult.core (r : BuildResult) : BuildResult :=
  { r with errors := [], resolution := r.resolution.unbatched }

namespace Store

/-! ### The shards that a store contains -/

section Contains

variable {s t : Store} {shards : List Shard} {m : String → Option Shard}

def lookup (shards : List Shard) : String → Option Shard :=
  fun k => shards.find? (·.key == k)

theorem lookup_cons (first : Shard) (rest : List Shard) (k : String) :
    lookup (first :: rest) k = if first.key = k then some first else lookup rest k := by
  rw [lookup]
  by_cases own : first.key = k
  · rw [List.find?_cons_of_pos (by simpa using own), if_pos own]
  · rw [List.find?_cons_of_neg (by simpa using own), if_neg own, lookup]

theorem lookup_fresh {k : String} (fresh : k ∉ shards.map (·.key)) : lookup shards k = none := by
  refine List.find?_eq_none.mpr fun shard there same => fresh ?_
  rw [← eq_of_beq same]
  exact List.mem_map_of_mem there

theorem lookup_eq_some (once : (shards.map (·.key)).Nodup) {k : String} {shard : Shard} :
    lookup shards k = some shard ↔ shard ∈ shards ∧ shard.key = k := by
  constructor
  · intro found
    exact ⟨List.mem_of_find?_eq_some found, by simpa using List.find?_some found⟩
  · rintro ⟨there, rfl⟩
    exact find?_of_nodup_keys once there

theorem keys_of_contains (contains : s.Contains shards) :
    s.keys = .ok (shards.map (·.key)) ∧ (shards.map (·.key)).Nodup := by
  rcases contains with ⟨m, ks, holds, listed, rfl⟩
  rcases holds.listed with ⟨all, same, ascending, members⟩
  rw [listed] at same
  cases same
  have keys : (ks.filterMap m).map (·.key) = ks := by
    have each : ∀ k ∈ ks, (m k).map (·.key) = some k := by
      intro k member
      rcases Option.ne_none_iff_exists'.mp ((members k).mp member) with ⟨shard, stored⟩
      rw [stored, Option.map_some, holds.keyed k shard stored]
    rw [List.map_filterMap, List.filterMap_congr each, List.filterMap_some]
  rw [keys]
  exact ⟨listed, ascending.imp fun less => String.ne_of_lt less⟩

theorem holds_lookup (contains : s.Contains shards) : s.Holds (lookup shards) := by
  have once := (keys_of_contains contains).2
  rcases contains with ⟨m, ks, holds, listed, rfl⟩
  rcases holds.listed with ⟨all, same, -, members⟩
  rw [listed] at same
  cases same
  have found : lookup (ks.filterMap m) = m := by
    funext k
    apply Option.ext
    intro shard
    rw [lookup_eq_some once, List.mem_filterMap]
    constructor
    · rintro ⟨⟨k', -, stored⟩, same⟩
      rw [holds.keyed k' shard stored] at same
      exact same ▸ stored
    · intro stored
      exact ⟨⟨k, (members k).mpr (stored ▸ nofun), stored⟩, holds.keyed k shard stored⟩
  rwa [found]

theorem sameShards_of_contains (first : t.Contains shards) (second : s.Contains shards)
    {ks : List String} (listed : s.keys = .ok ks) : SameShards ks t s :=
  sameShards_of_holds (holds_lookup first) (holds_lookup second) listed

end Contains

/-! ### Writing in any order -/

theorem saved_of_nodup (once : (shards.map (·.key)).Nodup) (m : String → Option Shard)
    (k : String) : saved m shards k = (lookup shards k).or (m k) := by
  induction shards generalizing m with
  | nil => rfl
  | cons first rest ih =>
    rcases List.nodup_cons.mp once with ⟨fresh, once⟩
    have tail : saved m (first :: rest) k =
      saved (Function.update m first.key (some first)) rest k := rfl
    rw [tail, ih once, lookup_cons]
    by_cases own : first.key = k
    · subst own
      rw [if_pos rfl, lookup_fresh fresh, Function.update_self]
      rfl
    · rw [if_neg own, Function.update_of_ne fun same => own same.symm]

theorem saved_perm {m : String → Option Shard} {first second : List Shard}
    (same : first.Perm second) (apart : (first.map (·.key)).Nodup) :
    saved m first = saved m second := by
  have apart' := (same.map (·.key)).nodup_iff.mp apart
  funext k
  have found : lookup first k = lookup second k := by
    apply Option.ext
    intro shard
    rw [lookup_eq_some apart, lookup_eq_some apart', same.mem_iff]
  rw [saved_of_nodup apart, saved_of_nodup apart', found]

theorem writeEach_count {shards : List Shard} {s s' : Store} {n : Nat}
    (wrote : writeEach shards s = ((n, []), s')) : n = shards.length := by
  induction shards generalizing s n with
  | nil =>
    cases wrote
    rfl
  | cons shard rest ih =>
    rw [writeEach, run_bind] at wrote
    rcases saving : save shard s with ⟨_ | key, between⟩
    · rw [saving] at wrote
      cases wrote
    · rw [saving] at wrote
      simp only [run_bind] at wrote
      rcases others : writeEach rest (evict key between).2 with ⟨⟨count, errors⟩, last⟩
      rw [others] at wrote
      cases wrote
      rw [ih others, List.length_cons]

/-! ### One build -/

/-- Two stores have the same document in a place, but for the time. -/
def SameDocument (path : String → String) (t s : Store) : Prop :=
  ∃ j i, t.readDocument (path t.root) = some j ∧ s.readDocument (path s.root) = some i ∧
    j.timeless = i.timeless

/-- A build of extractions leads from one store to another, and meets no errors but those of the
extractors. In what order the shards come to be written, in what batches they are resolved and how
much patience there is, is left open. -/
def Builds (inputs : List Extraction) (s : Store) (r : BuildResult) (t : Store) : Prop :=
  ∃ batchSize patience arrivals, arrivals.Perm (inputs.map Extraction.ownShard) ∧
    buildArriving [] batchSize patience inputs arrivals s = (.ok r, t) ∧
    r.errors = inputs.flatMap Extraction.warnings

/-- The result of a build of some shards, but for the errors. -/
def resultOf (topN written : Nat) (shards : List Shard) : BuildResult :=
  .ofIndex written [] ((Pass.resolving (.ofShards shards)).tally {} shards).unbatched
    (indexOf topN (linkAll shards)).summary

/-- What there is once some shards were built, but for the errors. -/
structure Built (topN written : Nat) (shards : List Shard) (r : BuildResult) (t : Store) :
    Prop where
  contains : t.Contains (linkAll shards)
  documents : t.Documents topN (linkAll shards)
  result : r.core = resultOf topN written shards

theorem sameDocument {path : String → String} {t s : Store} {j : Json}
    (first : (t.readDocument (path t.root)).map Json.timeless = some j)
    (second : (s.readDocument (path s.root)).map Json.timeless = some j) :
    SameDocument path t s := by
  rcases Option.map_eq_some_iff.mp first with ⟨own, found, timeless⟩
  rcases Option.map_eq_some_iff.mp second with ⟨other, found', timeless'⟩
  exact ⟨own, other, found, found', timeless.trans timeless'.symm⟩

section Build

variable {s t : Store} {shards : List Shard} {inputs : List Extraction} {r : BuildResult}

theorem resolve_tally (contains : s.Contains shards) {batchSize : Nat} {patience : Patience}
    {r : Outcome Diagnostics} (ran : resolve batchSize patience s = (.ok r, t))
    (clean : r.errors = []) :
    r.data.unbatched = ((Pass.resolving (.ofShards shards)).tally {} shards).unbatched := by
  rcases resolve_ok ran with ⟨edges, left, between, callers, rest, first, -, rfl⟩
  rcases contains with ⟨m, ks, holds, listed, rfl⟩
  rcases sweep_shows holds listed with ⟨cache, swept, held⟩
  rw [resolveEdges, run_bind, nameIndex, run_bind, swept] at first
  have keeps : (Pass.resolving (.ofShards (ks.filterMap m))).Keeps m := fun _ shard _ =>
    Pass.resolving_keeps _ shard
  have calm : edges.errors = [] := (List.append_eq_nil_iff.mp clean).1
  exact @Pass.run_tally _ _ _ _ _ _ _ (Pass.overlooks_resolving _) keeps _ _ _ edges _ _ held
    listed first calm

theorem builds_built (builds : Builds inputs s r t) :
    ∃ (arrivals : List Shard) (filled : Store) (ks : List String),
      arrivals.Perm (inputs.map Extraction.ownShard) ∧
      filled.Holds (saved (fun _ => none) arrivals) ∧ filled.keys = .ok ks ∧
      Built s.topN inputs.length (ks.filterMap (saved (fun _ => none) arrivals)) r t := by
  rcases builds with ⟨batchSize, patience, arrivals, arrived, built, clean⟩
  rcases buildArriving_stages built with ⟨count, empty, written, failed, filled, left, resolution,
    linked, documents, cleared, wrote, resolved, derived, rfl⟩
  simp only [BuildResult.ofIndex, List.nil_append, List.append_assoc, List.append_right_eq_self,
    List.append_eq_nil_iff, List.map_eq_nil_iff] at clean
  rcases clean with ⟨rfl, messages⟩
  have legible : ∀ shard ∈ arrivals, shard.Legible := by
    intro shard member
    rcases List.mem_map.mp (arrived.mem_iff.mp member) with ⟨e, -, rfl⟩
    exact e.legible_ownShard
  have held := writeEach_holds (clear_holds cleared) legible wrote
  rcases held.listed with ⟨ks, listed, -⟩
  have contains : filled.Contains (ks.filterMap (saved (fun _ => none) arrivals)) :=
    ⟨_, ks, held, listed, rfl⟩
  have calm := List.map_eq_nil_iff.mp messages
  have contains' := resolve_contains contains resolved calm
  rcases buildDerived_documents contains' derived with ⟨made, summary⟩
  have topN : linked.topN = s.topN := by
    have first := (steady_clear s).2
    have second := (steady_writeEach arrivals empty).2
    have third := (steady_resolve batchSize left filled).2
    rw [cleared] at first
    rw [wrote] at second
    rw [resolved] at third
    exact third.trans (second.trans first)
  rw [topN] at made summary
  refine ⟨arrivals, filled, ks, arrived, held, listed,
    buildDerived_contains contains' derived, made, ?_⟩
  have number : written = inputs.length := by
    rw [writeEach_count wrote, arrived.length_eq, List.length_map]
  simp only [BuildResult.core, BuildResult.ofIndex, resultOf, resolve_tally contains resolved calm,
    summary, number]

end Build

/-- Two builds of the same extractions, whose files have keys of their own, give the same. They may
differ in the order of the inputs and of the errors, in all that the stores had before, in when the
shards come to be written and in the batches, and the documents in the time that they are marked
with. -/
theorem build_reproducible {inputs inputs' : List Extraction} {s s' t t' : Store}
    {r r' : BuildResult} (same : inputs.Perm inputs')
    (apart : (inputs.map fun e => shardKey e.file).Nodup) (topN : s.topN = s'.topN)
    (first : Builds inputs s r t) (second : Builds inputs' s' r' t') :
    (∃ ks, t.keys = .ok ks ∧ t'.keys = .ok ks ∧ SameShards ks t t') ∧
      SameDocument indexPath t t' ∧ SameDocument entryPointsPath t t' ∧
      r.core = r'.core ∧ r.errors.Perm r'.errors := by
  rcases builds_built first with ⟨arrivals, filled, ks, arrived, holds, listed, built⟩
  rcases builds_built second with ⟨arrivals', filled', ks', arrived', holds', listed', built'⟩
  have orders : arrivals.Perm arrivals' :=
    arrived.trans ((same.map Extraction.ownShard).trans arrived'.symm)
  have keys : (arrivals.map (·.key)).Nodup := by
    refine (arrived.map (·.key)).nodup_iff.mpr ?_
    rw [List.map_map]
    exact apart
  have maps := saved_perm (m := fun _ => none) orders keys
  have lists : ks = ks' := by
    rw [maps] at holds
    have both := keys_of_stored holds'.toStored holds.toStored fun _ => Iff.rfl
    rw [listed, listed'] at both
    exact Except.ok.inj both
  rw [← maps, ← lists, ← topN, ← same.length_eq] at built'
  refine ⟨?_, sameDocument built.documents.index built'.documents.index,
    sameDocument built.documents.entryPoints built'.documents.entryPoints,
    built.result.trans built'.result.symm, ?_⟩
  · rcases built'.contains with ⟨m, all, held, own, -⟩
    have shards := sameShards_of_contains built.contains built'.contains own
    exact ⟨all, shards.keys.trans own, own, shards⟩
  · rcases first with ⟨_, _, _, -, -, warned⟩
    rcases second with ⟨_, _, _, -, -, warned'⟩
    rw [warned, warned']
    exact same.flatMap_right _

/-- Whether a build meets no errors but those of the extractors, and leaves what passes a check. -/
def succeeds (batchSize : Nat) (patience : Patience) (inputs : List Extraction) (s : Store)
    (check : Store → Bool) : Bool :=
  match build batchSize patience inputs s with
  | (.ok r, t) => decide (r.errors = inputs.flatMap Extraction.warnings) && check t
  | (.error _, _) => false

theorem builds_of_succeeds {inputs : List Extraction} {s : Store} {batchSize : Nat}
    {patience : Patience} {check : Store → Bool}
    (ran : succeeds batchSize patience inputs s check = true) :
    ∃ r t, Builds inputs s r t ∧ check t = true := by
  unfold succeeds at ran
  rcases built : build batchSize patience inputs s with ⟨_ | r, t⟩
  · rw [built] at ran
    cases ran
  · rw [built] at ran
    rcases Bool.and_eq_true_iff.mp ran with ⟨clean, checked⟩
    exact ⟨r, t, ⟨batchSize, patience, _, .refl _, built, of_decide_eq_true clean⟩, checked⟩

def mutualInputs : List Extraction :=
  [⟨"a.py", "python", [⟨"f", none, 1, 9, true, none, []⟩], [⟨"g", 3, none⟩], [], [], [], []⟩,
    ⟨"b.py", "python", [⟨"g", none, 1, 9, false, none, []⟩], [⟨"f", 3, none⟩], [], [], [], ["eof"]⟩]

theorem apart_mutualInputs : (mutualInputs.map fun e => shardKey e.file).Nodup := by
  decide +kernel

theorem succeeds_mutualInputs : succeeds 1 none mutualInputs blankStore (fun t =>
    decide ((t.persisted.flatMap (·.functions)).map (·.name) = ["f", "g"])) = true := by
  decide +kernel

/-- The other way round, and after other shards, an empty store comes to be the same. -/
theorem build_reproducible_mutual :
    (mutualInputs.map fun e => shardKey e.file).Nodup ∧ ∃ r t r' t',
      Builds mutualInputs blankStore r t ∧ Builds mutualInputs.reverse staleStore r' t' ∧
      (∃ ks, t.keys = .ok ks ∧ t'.keys = .ok ks ∧ SameShards ks t t') ∧
      SameDocument indexPath t t' ∧ r.core = r'.core := by
  have stale : succeeds 7 none mutualInputs.reverse staleStore (fun _ => true) = true := by
    decide +kernel
  rcases builds_of_succeeds succeeds_mutualInputs with ⟨r, t, first, -⟩
  rcases builds_of_succeeds stale with ⟨r', t', second, -⟩
  have topN : blankStore.topN = staleStore.topN := by
    unfold staleStore
    rw [(steady_save _ _).2, (steady_save _ _).2, (steady_save _ _).2]
  rcases build_reproducible (List.reverse_perm mutualInputs).symm apart_mutualInputs topN first
    second with ⟨shards, index, -, core, -⟩
  exact ⟨apart_mutualInputs, r, t, r', t', first, second, shards, index, core⟩

end Store

end DataReach
