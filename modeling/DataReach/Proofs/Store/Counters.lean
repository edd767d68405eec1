import DataReach.Proofs.Derived.Counts
import DataReach.Proofs.Derived.EntryPoints
import DataReach.Proofs.Reproducible
import DataReach.Proofs.Store.Reached
import DataReach.Proofs.Store.Reports
/-!
The counters of a store. Its statistics, its index and its list of entry points are made by sweeps
of their own, and the result of a build is put together while it goes on; they agree in every state,
whatever the batch size is.
-/

namespace DataReach.Store

variable {s t : Store} {ks : List String} {shards : List Shard}

/-! ### One state after another -/

theorem reports_congr {others : List Shard}
    (same : others.map Shard.plain = shards.map Shard.plain)
    (reports : Reports s (.ofShards others) (indexOf s.topN others) (entryPointsOf others)) :
    Reports s (.ofShards shards) (indexOf s.topN shards) (entryPointsOf shards) := by
  rw [← StoreStats.ofShards_plain, ← indexOf_plain, ← entryPointsOf_plain] at reports ⊢
  rwa [← same]

/-- Where the cache agrees with the documents, no more than confidences depends on the cache. -/
theorem shown_plain (coherent : Coherent Agrees s) (unwritten : Unwritten s t) {k : String}
    (plain : '/' ∉ k.toList) : (t.shown k).map Shard.plain = (s.shown k).map Shard.plain := by
  rcases shown_of_unwritten unwritten plain with same | read
  · rw [same]
  · rw [read, shown]
    cases cached : s.cache.shards.get? k with
    | none => rfl
    | some kept => exact coherent.kept k kept plain cached

theorem reports_of_consults (coherent : Coherent Agrees s) (consults : Consults s t)
    (listed : s.keys = .ok ks) (ascending : ks.Pairwise (· < ·)) :
    Reports t (.ofShards (ks.filterMap s.shown)) (indexOf s.topN (ks.filterMap s.shown))
      (entryPointsOf (ks.filterMap s.shown)) := by
  have unwritten := unwritten_of_consults consults
  rw [← unwritten.topN]
  apply reports_congr _ (reports_of_listed (unwritten.files.keys.trans listed) ascending)
  rw [List.map_filterMap, List.map_filterMap]
  apply List.filterMap_congr
  intro k member
  exact shown_plain coherent unwritten (plain_of_listed listed k member)

/-! ### Builds -/

section Build

variable {batchSize : Nat} {patience : Patience} {inputs : List Extraction} {arrivals : List Shard}
  {r : BuildResult}

theorem steady_of_inspects {α : Type} {x : StateM Store α} (inspects : Inspects x) : Steady x :=
  fun s => ⟨(inspects s).root, (inspects s).topN⟩

theorem steady_buildArriving (errors : List String) (batchSize : Nat) (patience : Patience)
    (inputs : List Extraction) (arrivals : List Shard) :
    Steady (buildArriving errors batchSize patience inputs arrivals) := by
  apply steady_bind steady_clear
  intro cleared
  cases cleared with
  | error e => exact steady_pure _
  | ok count =>
    apply steady_bind (steady_writeEach arrivals)
    rintro ⟨written, failed⟩
    cases patience.ask? with
    | none => exact steady_pure _
    | some left =>
      apply steady_bind (steady_resolve batchSize left)
      intro resolved
      cases resolved with
      | error e => exact steady_pure _
      | ok resolution =>
        apply steady_bind (steady_of_inspects inspects_buildDerived)
        intro derived
        cases derived with
        | error e => exact steady_pure _
        | ok documents => exact steady_pure _

theorem buildArriving_prior (errors : List String) (s : Store) :
    buildArriving errors batchSize patience inputs arrivals s =
      ((buildArriving [] batchSize patience inputs arrivals s).1.map fun r =>
          { r with errors := errors ++ r.errors },
        (buildArriving [] batchSize patience inputs arrivals s).2) := by
  rw [buildArriving, run_bind, buildArriving, run_bind]
  rcases clear s with ⟨_ | count, empty⟩
  · rfl
  · simp only [run_bind]
    rcases writeEach arrivals empty with ⟨⟨written, failed⟩, filled⟩
    cases patience.ask? with
    | none => rfl
    | some left =>
      simp only [run_bind]
      rcases resolve batchSize left filled with ⟨_ | resolution, linked⟩
      · rfl
      · simp only [run_bind]
        rcases buildDerived linked with ⟨_ | documents, last⟩
        · rfl
        · simp only [run_pure, Except.map, BuildResult.ofIndex, List.nil_append, List.append_assoc]

theorem built_of_prior {errors : List String}
    (arrived : arrivals.Perm (inputs.map Extraction.ownShard))
    (built : buildArriving errors batchSize patience inputs arrivals s = (.ok r, t))
    (clean : r.errors = errors ++ inputs.flatMap Extraction.warnings) :
    ∃ (wrote : List Shard) (filled : Store) (ks : List String),
      wrote.Perm (inputs.map Extraction.ownShard) ∧
      filled.Holds (saved (fun _ => none) wrote) ∧ filled.keys = .ok ks ∧
      Built s.topN inputs.length (ks.filterMap (saved (fun _ => none) wrote)) r t := by
  rw [buildArriving_prior] at built
  rcases outcome : buildArriving [] batchSize patience inputs arrivals s with ⟨_ | own, last⟩
  · rw [outcome] at built
    cases built
  · rw [outcome] at built
    cases built
    have warned := List.append_cancel_left clean
    obtain ⟨wrote, filled, ks, arrived, holds, listed, contains, documents, result⟩ :=
      builds_built ⟨batchSize, patience, arrivals, arrived, outcome, warned⟩
    exact ⟨wrote, filled, ks, arrived, holds, listed, contains, documents, result⟩

theorem length_saved {filled : Store} (holds : filled.Holds (saved (fun _ => none) arrivals))
    (listed : filled.keys = .ok ks) (apart : (arrivals.map (·.key)).Nodup) :
    (ks.filterMap (saved (fun _ => none) arrivals)).length = arrivals.length := by
  obtain ⟨keys, once⟩ := keys_of_contains ⟨_, ks, holds, listed, rfl⟩
  obtain ⟨all, same, -, members⟩ := holds.listed
  rw [listed] at same keys
  cases same
  have perm : ((ks.filterMap (saved (fun _ => none) arrivals)).map (·.key)).Perm
      (arrivals.map (·.key)) := by
    refine (List.perm_ext_iff_of_nodup once apart).mpr fun k => ?_
    rw [← Except.ok.inj keys, members, saved_ne_none]
    simp
  simpa using perm.length_eq

/-- What a build reports goes with the index that it leaves, and with what it counted while it
resolved the calls. -/
structure Counted (r : BuildResult) (i : GraphIndex) : Prop where
  functions : r.totalFunctions = i.summary.totalFunctions
  calls : r.totalCalls = i.summary.totalCalls
  resolvedCalls : r.resolvedCalls = i.summary.resolvedCalls
  entryPoints : r.entryPoints = i.summary.entryPoints
  dataAccessors : r.dataAccessors = i.summary.dataAccessors
  resolution : r.resolution.Counts r.totalCalls r.resolvedCalls

theorem counted_of_built {topN written : Nat} (built : Built topN written shards r t) :
    Counted r (indexOf topN (linkAll shards)) ∧ r.filesProcessed = written := by
  have same := built.result
  have calls : r.totalCalls = (indexOf topN (linkAll shards)).summary.totalCalls :=
    congrArg BuildResult.totalCalls same
  have resolved : r.resolvedCalls = (indexOf topN (linkAll shards)).summary.resolvedCalls :=
    congrArg BuildResult.resolvedCalls same
  have unbatched : r.resolution.unbatched =
      ((Pass.resolving (.ofShards shards)).tally {} shards).unbatched :=
    congrArg BuildResult.resolution same
  have counts : r.resolution.Counts r.totalCalls r.resolvedCalls := by
    rw [← Diagnostics.counts_unbatched, unbatched, Diagnostics.counts_unbatched, calls, resolved]
    exact counts_linkAll topN shards
  constructor
  · exact ⟨congrArg BuildResult.totalFunctions same, calls, resolved,
      congrArg BuildResult.entryPoints same, congrArg BuildResult.dataAccessors same, counts⟩
  · exact congrArg BuildResult.filesProcessed same

theorem reports_of_contains (contains : t.Contains shards) (batchSize : Nat) :
    Reports { t with batchSize } (.ofShards shards) (indexOf t.topN shards)
      (entryPointsOf shards) := by
  obtain ⟨last, swept, -⟩ := sweep_contains contains
  obtain ⟨m, ks, holds, listed, -⟩ := contains
  obtain ⟨all, same, ascending, -⟩ := holds.listed
  rw [listed] at same
  cases same
  obtain rfl : shards = ks.filterMap t.shown := by
    have shown := sweep_fst listed ascending.nodup
    rw [swept] at shown
    exact Except.ok.inj shown
  exact @reports_of_listed { t with batchSize } ks listed ascending

end Build

/-- All counters agree. In any state that a store has come to, what it reports is consistent and
does not depend on the batch size; where all confidences that were saved are finite, so that every
document can be read again, it stays the same while the store is asked for it and for other things.
A build without errors of the store reports what it counted when it resolved the calls and what the
index says that it leaves, which has a file for each input with a key of its own. -/
theorem counters_agree :
    (∀ (P : Shard → Prop) (s : Store), Reached P s → ∃ c i list, Consistent c i list ∧
      (∀ batchSize, Reports { s with batchSize } c i list) ∧
      ((∀ shard, P shard → shard.Finite) → ∀ t, Consults s t → Reports t c i list)) ∧
    ∀ (errors : List String) (batchSize : Nat) (patience : Patience) (inputs : List Extraction)
      (arrivals : List Shard) (s t : Store) (r : BuildResult),
      arrivals.Perm (inputs.map Extraction.ownShard) →
      buildArriving errors batchSize patience inputs arrivals s = (.ok r, t) →
      r.errors = errors ++ inputs.flatMap Extraction.warnings →
      ∃ c i list, Consistent c i list ∧ (∀ batchSize, Reports { t with batchSize } c i list) ∧
        (t.readDocument (indexPath t.root)).map Json.timeless = some i.toJson.reread.timeless ∧
        Counted r i ∧ ((inputs.map fun e => shardKey e.file).Nodup →
          r.filesProcessed = i.summary.totalFiles) := by
  constructor
  · intro P s reached
    obtain ⟨ks, listed, ascending, -⟩ := (reached_matches reached).listed
    refine ⟨_, _, _, consistent_ofShards s.topN (ks.filterMap s.shown), fun batchSize => ?_,
      fun finite t consults => ?_⟩
    · exact @reports_of_listed { s with batchSize } ks listed ascending
    · exact reports_of_consults (reached_agrees finite reached) consults listed ascending
  · intro errors batchSize patience inputs arrivals s t r arrived built clean
    have topN := (steady_buildArriving errors batchSize patience inputs arrivals s).2
    rw [built] at topN
    obtain ⟨wrote, filled, ks, arrived, holds, listed, left⟩ := built_of_prior arrived built clean
    rw [← topN] at left
    obtain ⟨counted, files⟩ := counted_of_built left
    refine ⟨_, _, _, consistent_ofShards t.topN (linkAll _), reports_of_contains left.contains,
      left.documents.index, counted, fun apart => ?_⟩
    have keys : (wrote.map (·.key)).Nodup := by
      refine (arrived.map (·.key)).nodup_iff.mpr ?_
      rw [List.map_map]
      exact apart
    calc r.filesProcessed
      _ = inputs.length := files
      _ = wrote.length := by rw [arrived.length_eq, List.length_map]
      _ = (ks.filterMap (saved (fun _ => none) wrote)).length :=
        (length_saved holds listed keys).symm
      _ = (linkAll (ks.filterMap (saved (fun _ => none) wrote))).length := by
        rw [linkAll, List.length_map, List.length_map]

/-- Two functions in a ring, and two files that call each other, built after an error. -/
theorem counters_agree_ring :
    (∃ c i list x y, Consistent c i list ∧ Reports ringStore c i list ∧
      Reports (buildIndex ringStore).2 c i list ∧ c = ⟨1, 2, 3, 3, 1, 1⟩ ∧
      (buildDerived ringStore).1 = .ok (x, y) ∧ x.summary = i.summary) ∧
    ∃ r t c i list, buildArriving ["e"] 1 none mutualInputs (mutualInputs.map Extraction.ownShard)
        blankStore = (.ok r, t) ∧ r.errors = "e" :: mutualInputs.flatMap Extraction.warnings ∧
      Consistent c i list ∧ Reports t c i list ∧ Counted r i ∧
      r.filesProcessed = i.summary.totalFiles ∧ r.resolvedCalls = 2 := by
  constructor
  · obtain ⟨c, i, list, consistent, -, later⟩ :=
      counters_agree.1 Shard.Finite ringStore ringStore_reached
    have now := later (fun _ finite => finite) ringStore .refl
    have numbers : (stats ringStore).1.toOption.any (fun c => decide (c = ⟨1, 2, 3, 3, 1, 1⟩)) =
        true := by
      decide +kernel
    rw [now.stats] at numbers
    have made : (buildDerived ringStore).1.isOk = true := by decide +kernel
    rcases outcome : (buildDerived ringStore).1 with e | ⟨x, y⟩
    · rw [outcome] at made
      cases made
    · have index := ((now.derived x y).mp outcome).1
      have summary : x.summary = i.summary := by rw [((now.index x).mp index).1]
      exact ⟨c, i, list, x, y, consistent, now, later (fun _ finite => finite) _ (.index .refl),
        of_decide_eq_true numbers, rfl, summary⟩
  · have runs : (buildArriving ["e"] 1 none mutualInputs (mutualInputs.map Extraction.ownShard)
        blankStore).1.toOption.any (fun r => decide
          (r.errors = "e" :: mutualInputs.flatMap Extraction.warnings ∧ r.resolvedCalls = 2)) =
            true := by
      decide +kernel
    rcases built : buildArriving ["e"] 1 none mutualInputs (mutualInputs.map Extraction.ownShard)
      blankStore with ⟨_ | r, t⟩
    · rw [built] at runs
      cases runs
    · rw [built] at runs
      obtain ⟨clean, resolved⟩ := of_decide_eq_true runs
      obtain ⟨c, i, list, consistent, resized, -, counted, files⟩ :=
        counters_agree.2 _ _ _ _ _ _ _ _ (.refl _) built clean
      exact ⟨r, t, c, i, list, rfl, clean, consistent, resized t.batchSize, counted,
        files apart_mutualInputs, resolved⟩

end DataReach.Store
