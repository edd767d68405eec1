import DataReach.Proofs.Store.Shown
import DataReach.Store.Queries
/-!
What a store reports of itself: its statistics, its index and its list of entry points, the last two
each on its own or both from one sweep. All of it follows from what a sweep shows and from whether
the documents can be written.
-/

namespace DataReach.Store

variable {s t : Store} {ks : List String} {shards : List Shard}

/-! ### Writing the derived documents -/

def Takes (s : Store) (x : FileName) : Prop := Disk.Replaceable s.disk s.root (draftName x) x

theorem writeDocument_fst {x : FileName} (proper : x.Proper) (j : Json) :
    (s.writeDocument (Path.join s.root x.text) j).1 = .ok () ↔ s.Takes x := by
  constructor
  · intro written
    exact (writeDocument_ok proper (Prod.ext written rfl)).1
  · intro takes
    obtain ⟨last, written⟩ := writeDocument_succeeds proper takes j
    rw [written]

theorem putIndex_fst {entries : List EntryPoint} {i : GraphIndex} :
    (putIndex shards entries s).1 = .ok i ↔
      i = .ofShards formatVersion s.now s.topN shards entries ∧ s.Takes indexName := by
  rw [← writeDocument_fst proper_indexName i.toJson]
  constructor
  · intro put
    obtain ⟨made, written⟩ := putIndex_ok (Prod.ext put rfl)
    exact ⟨made, congrArg Prod.fst written⟩
  · rintro ⟨rfl, written⟩
    rw [putIndex, indexPath_eq]
    rcases outcome : s.writeDocument (Path.join s.root indexName.text)
      (GraphIndex.ofShards formatVersion s.now s.topN shards entries).toJson with ⟨_ | _, last⟩
    · rw [outcome] at written
      cases written
    · rfl

theorem putEntryPoints_fst {entries : List EntryPoint} {list : EntryPointList} :
    (putEntryPoints entries s).1 = .ok list ↔
      list = ⟨formatVersion, s.now, entries⟩ ∧ s.Takes entryPointsName := by
  rw [← writeDocument_fst proper_entryPointsName list.toJson]
  constructor
  · intro put
    obtain ⟨made, written⟩ := putEntryPoints_ok (Prod.ext put rfl)
    exact ⟨made, congrArg Prod.fst written⟩
  · rintro ⟨rfl, written⟩
    rw [putEntryPoints, entryPointsPath_eq]
    rcases outcome : s.writeDocument (Path.join s.root entryPointsName.text)
      (EntryPointList.toJson ⟨formatVersion, s.now, entries⟩) with ⟨_ | _, last⟩
    · rw [outcome] at written
      cases written
    · rfl

theorem takes_putIndex {entries : List EntryPoint} {i : GraphIndex}
    (put : putIndex shards entries s = (.ok i, t)) (x : FileName) :
    t.now = s.now ∧ (t.Takes x ↔ s.Takes x) := by
  obtain ⟨-, written⟩ := putIndex_ok put
  obtain ⟨-, q, children, disk, rfl, -, edited⟩ := writeDocument_ok proper_indexName written
  refine ⟨rfl, ?_, ?_⟩
  · exact Disk.replaceable_congr fun p => (edited.directories p).symm
  · exact Disk.replaceable_congr edited.directories

/-! ### Reports -/

/-- What a store reports in some state, but for the time. A document is reported once it is written,
and both together if each of them can be. -/
structure Reports (s : Store) (c : StoreStats) (i : GraphIndex) (list : EntryPointList) :
    Prop where
  stats : (stats s).1 = .ok c
  index : ∀ x, (buildIndex s).1 = .ok x ↔ x = { i with generatedAt := s.now } ∧ s.Takes indexName
  entryPoints : ∀ y, (buildEntryPoints s).1 = .ok y ↔
    y = { list with generatedAt := s.now } ∧ s.Takes entryPointsName
  derived : ∀ x y, (buildDerived s).1 = .ok (x, y) ↔
    (buildIndex s).1 = .ok x ∧ (buildEntryPoints s).1 = .ok y

theorem buildIndex_fst (swept : (sweep s).1 = .ok shards) :
    (buildIndex s).1 = (putIndex shards (EntryPoint.ofShards shards) (sweep s).2).1 := by
  rw [buildIndex, run_bind, swept]

theorem buildEntryPoints_fst (swept : (sweep s).1 = .ok shards) :
    (buildEntryPoints s).1 = (putEntryPoints (EntryPoint.ofShards shards) (sweep s).2).1 := by
  rw [buildEntryPoints, run_bind, swept]

theorem buildDerived_fst (swept : (sweep s).1 = .ok shards) (x : GraphIndex)
    (y : EntryPointList) :
    (buildDerived s).1 = .ok (x, y) ↔
      (buildIndex s).1 = .ok x ∧ (buildEntryPoints s).1 = .ok y := by
  rw [buildIndex_fst swept, buildEntryPoints_fst swept, buildDerived, run_bind, swept]
  simp only [run_bind]
  rcases first : putIndex shards (EntryPoint.ofShards shards) (sweep s).2 with ⟨e | i, between⟩
  · simp [run_pure]
  · obtain ⟨now, takes⟩ := takes_putIndex first entryPointsName
    have second : (putEntryPoints (EntryPoint.ofShards shards) between).1 = .ok y ↔
        (putEntryPoints (EntryPoint.ofShards shards) (sweep s).2).1 = .ok y := by
      rw [putEntryPoints_fst, putEntryPoints_fst, now, takes]
    rw [← second]
    simp only [run_bind]
    rcases putEntryPoints (EntryPoint.ofShards shards) between with ⟨e | list, last⟩
    · simp [run_pure]
    · simp [run_pure]

theorem reports_of_sweep (swept : (sweep s).1 = .ok shards) :
    Reports s (.ofShards shards) (indexOf s.topN shards) (entryPointsOf shards) := by
  have same := (recaches_sweep s).same
  constructor
  · rw [stats, ofSweep, run_bind, run_pure, swept]
    rfl
  · intro x
    rw [buildIndex_fst swept, putIndex_fst, same]
    rfl
  · intro y
    rw [buildEntryPoints_fst swept, putEntryPoints_fst, same]
    rfl
  · exact buildDerived_fst swept

theorem reports_of_listed (listed : s.keys = .ok ks) (ascending : ks.Pairwise (· < ·)) :
    Reports s (.ofShards (ks.filterMap s.shown)) (indexOf s.topN (ks.filterMap s.shown))
      (entryPointsOf (ks.filterMap s.shown)) :=
  reports_of_sweep (sweep_fst listed ascending.nodup)

end DataReach.Store
