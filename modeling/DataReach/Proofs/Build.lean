import DataReach.Build
import DataReach.Proofs.Linked
import DataReach.Proofs.Store.Resolver
/-!
What a build leaves in a store. Each stage is followed on the list of the shards that the store
contains: writing makes the list, the two passes map it, and the derived documents leave it alone.
-/

namespace DataReach

theorem Extraction.legible_ownShard (e : Extraction) : e.ownShard.Legible := by
  intro f' member edge call
  rcases List.mem_map.mp member with ⟨⟨f, i⟩, -, rfl⟩
  rcases List.mem_map.mp (List.mem_mergeSort.mp call) with ⟨c, -, rfl⟩
  exact legible_zero

namespace Store

def persisted (s : Store) : List Shard :=
  match s.keys with
  | .ok ks => ks.filterMap s.readShard
  | .error _ => []

def Contains (s : Store) (shards : List Shard) : Prop :=
  ∃ m ks, s.Holds m ∧ s.keys = .ok ks ∧ shards = ks.filterMap m

section Contains

variable {s s' : Store} {shards : List Shard}

theorem contains_of_holds {m : String → Option Shard} (holds : s.Holds m) :
    ∃ shards, s.Contains shards ∧
      ∀ key, (∃ shard ∈ shards, shard.key = key) ↔ m key ≠ none := by
  rcases holds.listed with ⟨ks, listed, -, members⟩
  refine ⟨ks.filterMap m, ⟨m, ks, holds, listed, rfl⟩, fun key => ?_⟩
  simp only [List.mem_filterMap]
  constructor
  · intro given
    rcases given with ⟨shard, ⟨k, -, stored⟩, rfl⟩
    rw [holds.keyed k shard stored, stored]
    exact Option.some_ne_none shard
  · intro there
    rcases Option.ne_none_iff_exists'.mp there with ⟨shard, stored⟩
    exact ⟨shard, ⟨key, (members key).mpr there, stored⟩, holds.keyed key shard stored⟩

theorem persisted_of_contains (contains : s.Contains shards) : s.persisted = shards := by
  rcases contains with ⟨m, ks, holds, listed, rfl⟩
  rcases holds.listed with ⟨all, same, -, members⟩
  rw [listed] at same
  cases same
  simp only [persisted, listed]
  apply List.filterMap_congr
  intro k member
  rcases Option.ne_none_iff_exists'.mp ((members k).mp member) with ⟨shard, stored⟩
  rw [stored, holds.read k shard stored]

theorem sweep_contains (contains : s.Contains shards) :
    ∃ s', sweep s = (.ok shards, s') ∧ s'.Contains shards := by
  rcases contains with ⟨m, ks, holds, listed, rfl⟩
  rcases sweep_shows holds listed with ⟨cache, swept, held⟩
  exact ⟨_, swept, m, ks, held, listed, rfl⟩

theorem run_contains {α : Type} {p : Pass α} (contains : s.Contains shards)
    (keeps : ∀ shard ∈ shards, (p.apply shard).Legible ∧ (p.apply shard).key = shard.key)
    {batchSize : Nat} {patience left : Patience} {start : α} {r : Outcome α}
    (ran : p.run batchSize patience start s = (.ok (r, left), s')) (clean : r.errors = []) :
    s'.Contains (shards.map p.apply) := by
  rcases contains with ⟨m, ks, holds, listed, rfl⟩
  have own : p.Keeps m := by
    intro key shard stored
    rcases holds.listed with ⟨all, same, -, members⟩
    rw [listed] at same
    cases same
    have member : key ∈ ks := (members key).mpr (stored ▸ Option.some_ne_none shard)
    exact keeps shard (List.mem_filterMap.mpr ⟨key, member, stored⟩)
  have held := Pass.run_holds own holds ran clean
  have keys : s'.keys = s.keys := keys_of_stored holds.toStored held.toStored fun k => by simp
  exact ⟨_, ks, held, keys.trans listed, List.map_filterMap⟩

end Contains

section Resolve

variable {s s' : Store} {shards : List Shard} {batchSize : Nat} {patience left : Patience}

theorem resolveEdges_contains (contains : s.Contains shards) {r : Outcome Diagnostics}
    (ran : resolveEdges batchSize patience s = (.ok (r, left), s')) (clean : r.errors = []) :
    s'.Contains (shards.map (·.resolve (.ofShards shards))) := by
  rcases sweep_contains contains with ⟨between, swept, contains'⟩
  rw [resolveEdges, run_bind, nameIndex, run_bind, swept] at ran
  have all := run_contains contains' (fun _ _ => Pass.resolving_keeps _ _) ran clean
  rwa [Pass.resolving_apply] at all

theorem materializeCallers_contains (contains : s.Contains shards)
    (legible : ∀ shard ∈ shards, shard.Legible) {r : Outcome Nat}
    (ran : materializeCallers batchSize patience s = (.ok (r, left), s'))
    (clean : r.errors = []) : s'.Contains (shards.map (·.withCallers (.ofShards shards))) := by
  rcases sweep_contains contains with ⟨between, swept, contains'⟩
  rw [materializeCallers, run_bind, swept] at ran
  have all := run_contains contains'
    (fun shard member => Pass.givingCallers_keeps _ (legible shard member)) ran clean
  rwa [Pass.givingCallers_apply] at all

theorem resolve_ok {r : Outcome Diagnostics}
    (ran : resolve batchSize patience s = (.ok r, s')) :
    ∃ edges left between callers rest,
      resolveEdges batchSize patience s = (.ok (edges, left), between) ∧
        materializeCallers batchSize left between = (.ok (callers, rest), s') ∧
        r = { edges with errors := edges.errors ++ callers.errors } := by
  rw [resolve, run_bind] at ran
  rcases first : resolveEdges batchSize patience s with ⟨outcome, between⟩
  rw [first] at ran
  cases outcome with
  | error e => cases ran
  | ok found =>
    rcases found with ⟨edges, left⟩
    simp only [run_bind] at ran
    rcases second : materializeCallers batchSize left between with ⟨outcome, last⟩
    rw [second] at ran
    cases outcome with
    | error e => cases ran
    | ok found =>
      rcases found with ⟨callers, rest⟩
      cases ran
      exact ⟨edges, left, between, callers, rest, rfl, second, rfl⟩

theorem resolve_contains (contains : s.Contains shards) {r : Outcome Diagnostics}
    (ran : resolve batchSize patience s = (.ok r, s')) (clean : r.errors = []) :
    s'.Contains (linkAll shards) := by
  rcases resolve_ok ran with ⟨edges, left, between, callers, rest, first, second, rfl⟩
  rcases List.append_eq_nil_iff.mp clean with ⟨cleanEdges, cleanCallers⟩
  have grounded := resolveEdges_contains contains first cleanEdges
  have legible : ∀ shard ∈ shards.map (·.resolve (.ofShards shards)), shard.Legible := by
    intro shard member
    rcases List.mem_map.mp member with ⟨before, -, rfl⟩
    exact before.legible_resolve _
  exact materializeCallers_contains grounded legible second cleanCallers

theorem resolve_links (contains : s.Contains shards) {r : Outcome Diagnostics}
    (ran : resolve batchSize patience s = (.ok r, s')) (clean : r.errors = []) :
    ∃ linked, s'.Contains linked ∧ Linked (linked.flatMap (·.functions)) ∧
      linked.map (·.key) = shards.map (·.key) :=
  ⟨linkAll shards, resolve_contains contains ran clean, linked_linkAll shards, keys_linkAll shards⟩

end Resolve

section Derived

variable {s s' : Store} {shards : List Shard}

theorem writeDocument_contains (contains : s.Contains shards) {x : FileName} (proper : x.Proper)
    (other : filesName ≠ x) (notDraft : filesName ≠ draftName x) {j : Json}
    (written : s.writeDocument (Path.join s.root x.text) j = (.ok (), s')) :
    s'.Contains shards := by
  rcases sameFiles_of_writeDocument proper other notDraft written with ⟨same, -, cache⟩
  rcases contains with ⟨m, ks, holds, listed, rfl⟩
  refine ⟨m, ks, ⟨⟨?_, ?_, holds.keyed⟩, cache ▸ holds.toCovers⟩, same.keys.trans listed, rfl⟩
  · rw [same.keys]
    exact holds.listed
  · intro k shard stored
    rw [same.read k (plain_of_stored holds.toStored stored)]
    exact holds.read k shard stored

theorem putIndex_contains (contains : s.Contains shards) {found : List Shard}
    {entries : List EntryPoint} {index : GraphIndex}
    (put : putIndex found entries s = (.ok index, s')) : s'.Contains shards := by
  rw [putIndex] at put
  rcases written : s.writeDocument (indexPath s.root)
    (GraphIndex.ofShards formatVersion s.now s.topN found entries).toJson with ⟨outcome, last⟩
  simp only [written] at put
  cases outcome with
  | error e => cases put
  | ok done =>
    cases put
    exact @writeDocument_contains _ _ _ contains indexName proper_indexName (by decide) (by decide)
      _ written

theorem putEntryPoints_contains (contains : s.Contains shards) {entries : List EntryPoint}
    {list : EntryPointList} (put : putEntryPoints entries s = (.ok list, s')) :
    s'.Contains shards := by
  rw [putEntryPoints] at put
  rcases written : s.writeDocument (entryPointsPath s.root)
    (EntryPointList.toJson ⟨formatVersion, s.now, entries⟩) with ⟨outcome, last⟩
  simp only [written] at put
  cases outcome with
  | error e => cases put
  | ok done =>
    cases put
    exact @writeDocument_contains _ _ _ contains entryPointsName proper_entryPointsName (by decide)
      (by decide) _ written

theorem buildDerived_contains (contains : s.Contains shards)
    {documents : GraphIndex × EntryPointList} (built : buildDerived s = (.ok documents, s')) :
    s'.Contains shards := by
  rcases sweep_contains contains with ⟨between, swept, contains'⟩
  rw [buildDerived, run_bind, swept] at built
  simp only [run_bind] at built
  rcases first : putIndex shards (EntryPoint.ofShards shards) between with ⟨outcome, indexed⟩
  rw [first] at built
  cases outcome with
  | error e => cases built
  | ok index =>
    simp only [run_bind] at built
    rcases second : putEntryPoints (EntryPoint.ofShards shards) indexed with ⟨outcome, last⟩
    rw [second] at built
    cases outcome with
    | error e => cases built
    | ok list =>
      cases built
      exact putEntryPoints_contains (putIndex_contains contains' first) second

end Derived

section Write

variable {s s' : Store}

/-- The map after shards were saved one after the other: of several with one key the last stays. -/
def saved (m : String → Option Shard) (shards : List Shard) : String → Option Shard :=
  shards.foldl (fun m shard => Function.update m shard.key (some shard)) m

theorem saved_ne_none {m : String → Option Shard} {shards : List Shard} {key : String} :
    saved m shards key ≠ none ↔ m key ≠ none ∨ ∃ shard ∈ shards, shard.key = key := by
  induction shards generalizing m with
  | nil => simp [saved]
  | cons first rest ih =>
    have tail : saved m (first :: rest) key =
        saved (Function.update m first.key (some first)) rest key := rfl
    rw [tail, ih]
    by_cases own : first.key = key
    · subst own
      simp
    · simp [own, Function.update_of_ne (Ne.symm own)]

theorem writeEach_holds {m : String → Option Shard} (holds : s.Holds m) {shards : List Shard}
    (legible : ∀ shard ∈ shards, shard.Legible) {n : Nat}
    (wrote : writeEach shards s = ((n, []), s')) : s'.Holds (saved m shards) := by
  induction shards generalizing s m n with
  | nil =>
    cases wrote
    exact holds
  | cons shard rest ih =>
    rw [writeEach, run_bind] at wrote
    rcases saving : save shard s with ⟨outcome, between⟩
    rw [saving] at wrote
    cases outcome with
    | error e => cases wrote
    | ok key =>
      have held := save_holds holds (legible shard (List.mem_cons_self ..)) saving
      rcases evict_holds held key with ⟨cache, evicted, kept⟩
      simp only [run_bind] at wrote
      rw [evicted] at wrote
      rcases others : writeEach rest { between with cache } with ⟨⟨count, errors⟩, last⟩
      rw [others] at wrote
      cases wrote
      exact ih kept (fun other later => legible other (List.mem_cons_of_mem shard later)) others

end Write

section Build

variable {s s' : Store} {batchSize : Nat} {patience : Patience} {inputs : List Extraction}
  {arrivals : List Shard}

theorem buildArriving_stages {errors : List String} {r : BuildResult}
    (built : buildArriving errors batchSize patience inputs arrivals s = (.ok r, s')) :
    ∃ count empty written failed filled left resolution linked documents,
      clear s = (.ok count, empty) ∧
        writeEach arrivals empty = ((written, failed), filled) ∧
        resolve batchSize left filled = (.ok resolution, linked) ∧
        buildDerived linked = (.ok documents, s') ∧
        r = .ofIndex written (errors ++ inputs.flatMap Extraction.warnings ++
          failed.map StorageError.coded ++ resolution.messages) resolution.data
          documents.1.summary := by
  rw [buildArriving, run_bind] at built
  rcases cleared : clear s with ⟨outcome, empty⟩
  rw [cleared] at built
  cases outcome with
  | error e => cases built
  | ok count =>
    simp only [run_bind] at built
    rcases wrote : writeEach arrivals empty with ⟨⟨written, failed⟩, filled⟩
    rw [wrote] at built
    cases asked : patience.ask? with
    | none =>
      simp only [asked] at built
      cases built
    | some left =>
      simp only [asked] at built
      rw [run_bind] at built
      rcases resolved : resolve batchSize left filled with ⟨outcome, linked⟩
      rw [resolved] at built
      cases outcome with
      | error e => cases built
      | ok resolution =>
        simp only [run_bind] at built
        rcases derived : buildDerived linked with ⟨outcome, last⟩
        rw [derived] at built
        cases outcome with
        | error e => cases built
        | ok documents =>
          cases built
          exact ⟨count, empty, written, failed, filled, left, resolution, linked, documents, rfl,
            wrote, resolved, derived, rfl⟩

theorem buildArriving_ok {errors : List String} {r : BuildResult}
    (built : buildArriving errors batchSize patience inputs arrivals s = (.ok r, s')) :
    ∃ count empty written failed filled left resolution linked documents,
      clear s = (.ok count, empty) ∧
        writeEach arrivals empty = ((written, failed), filled) ∧
        resolve batchSize left filled = (.ok resolution, linked) ∧
        buildDerived linked = (.ok documents, s') ∧
        r.errors = errors ++ inputs.flatMap Extraction.warnings ++
          failed.map StorageError.coded ++ resolution.messages := by
  rcases buildArriving_stages built with ⟨count, empty, written, failed, filled, left, resolution,
    linked, documents, cleared, wrote, resolved, derived, rfl⟩
  exact ⟨count, empty, written, failed, filled, left, resolution, linked, documents, cleared, wrote,
    resolved, derived, rfl⟩

/-- A build that meets no errors but those of the extractors leaves a shard for each file, and their
functions are linked, in whatever order the shards were written; in `build` it is that of the
inputs. -/
theorem build_linked {r : BuildResult} (arrived : arrivals.Perm (inputs.map Extraction.ownShard))
    (built : buildArriving [] batchSize patience inputs arrivals s = (.ok r, s'))
    (clean : r.errors = inputs.flatMap Extraction.warnings) :
    Linked (s'.persisted.flatMap (·.functions)) ∧
      ∀ key, (∃ shard ∈ s'.persisted, shard.key = key) ↔
        ∃ e ∈ inputs, shardKey e.file = key := by
  rcases buildArriving_ok built with ⟨count, empty, written, failed, filled, left, resolution,
    linked, documents, cleared, wrote, resolved, derived, errors⟩
  rw [clean, List.nil_append, List.append_assoc, List.self_eq_append_right,
    List.append_eq_nil_iff, List.map_eq_nil_iff] at errors
  rcases errors with ⟨rfl, messages⟩
  have legible : ∀ shard ∈ arrivals, shard.Legible := by
    intro shard member
    rcases List.mem_map.mp (arrived.mem_iff.mp member) with ⟨e, -, rfl⟩
    exact e.legible_ownShard
  have held := writeEach_holds (clear_holds cleared) legible wrote
  rcases contains_of_holds held with ⟨shards, contains, keys⟩
  rcases resolve_links contains resolved (List.map_eq_nil_iff.mp messages) with
    ⟨last, contains', links, same⟩
  have kept := buildDerived_contains contains' derived
  rw [persisted_of_contains kept]
  refine ⟨links, fun key => ?_⟩
  have moved : (∃ shard ∈ last, shard.key = key) ↔ ∃ shard ∈ shards, shard.key = key := by
    rw [← List.mem_map, same, List.mem_map]
  rw [moved, keys, saved_ne_none]
  simp [arrived.mem_iff, Shard.key, Extraction.ownShard, Extraction.shard]

def loopStore : Store where
  root := "/t"
  disk := (Disk.empty.createDirectories "/t/files").2
  cache := { capacity := 1 }
  batchSize := 1
  topN := 1

def loopInputs : List Extraction :=
  let f : ExtractedFunction := ⟨"f", none, 1, 9, true, none, []⟩
  let g : ExtractedFunction := ⟨"g", none, 2, 3, false, none, []⟩
  [⟨"a.py", "python", [f], [⟨"f", 3, none⟩], [], [], [], []⟩,
    ⟨"a.py", "python", [g], [⟨"f", 3, none⟩], [], [], [], []⟩]

def loopArrivals : List Shard := (loopInputs.map Extraction.ownShard).reverse

theorem build_linked_loop :
    loopArrivals.Perm (loopInputs.map Extraction.ownShard) ∧
      ∃ r s', buildArriving [] 1 none loopInputs loopArrivals loopStore = (.ok r, s') ∧
        r.errors = loopInputs.flatMap Extraction.warnings ∧
        (s'.persisted.flatMap (·.functions)).map (·.calledBy) = [[⟨"a.py:f:1", 3⟩]] ∧
        Linked (s'.persisted.flatMap (·.functions)) := by
  have arrived : loopArrivals.Perm (loopInputs.map Extraction.ownShard) := List.reverse_perm _
  have runs : (match buildArriving [] 1 none loopInputs loopArrivals loopStore with
      | (.ok r, s') => decide (r.errors = loopInputs.flatMap Extraction.warnings ∧
          (s'.persisted.flatMap (·.functions)).map (·.calledBy) = [[⟨"a.py:f:1", 3⟩]])
      | (.error _, _) => false) = true := by
    decide +kernel
  rcases built : buildArriving [] 1 none loopInputs loopArrivals loopStore with ⟨outcome, s'⟩
  rw [built] at runs
  cases outcome with
  | error e => cases runs
  | ok r =>
    rcases of_decide_eq_true runs with ⟨clean, callers⟩
    exact ⟨arrived, r, s', rfl, clean, callers, (build_linked arrived built clean).1⟩

end Build

end Store

end DataReach
