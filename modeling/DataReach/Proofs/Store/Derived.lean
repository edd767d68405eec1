import DataReach.Proofs.Build
/-!
The derived documents that a store has after they were made: they say what follows from its shards,
and nothing else in them depends on the store but the time that they are marked with.
-/

namespace DataReach

def Json.without (name : String) : Json → Json
  | .obj members => .obj (members.filter (·.1 ≠ name))
  | j => j

def Json.timeless (j : Json) : Json := j.without "generated_at"

theorem GraphIndex.timeless_reread (i : GraphIndex) (now : Nat) :
    (GraphIndex.toJson { i with generatedAt := now }).reread.timeless =
      i.toJson.reread.timeless := by
  simp [toJson, Json.reread, Json.rereadMembers, Json.timeless, Json.without]

theorem EntryPointList.timeless_reread (l : EntryPointList) (now : Nat) :
    (EntryPointList.toJson { l with generatedAt := now }).reread.timeless =
      l.toJson.reread.timeless := by
  simp [toJson, Json.reread, Json.rereadMembers, Json.timeless, Json.without]

namespace Store

variable {s s' : Store} {x y : FileName} {j : Json}

theorem readDocument_written (proper : x.Proper)
    (written : s.writeDocument (Path.join s.root x.text) j = (.ok (), s')) :
    s'.readDocument (Path.join s'.root x.text) = some j.reread := by
  rcases writeDocument_ok proper written with
    ⟨replaceable, q, children, d', rfl, below, edited⟩
  have found : d'.read (Path.join s.root x.text) = .ok (.document j.reread) := by
    have below' := (Disk.descends_congr edited.directories).mpr below
    refine (Disk.read_join proper).mpr ⟨replaceable.passable, q, below', ?_⟩
    rw [Disk.at?_child edited.holds, Disk.replaced, Dict.get?_insert, if_pos rfl]
  rw [readDocument, found]
  rfl

theorem readDocument_beside (proper : x.Proper) (beside : y.Proper) (other : y ≠ x)
    (notDraft : y ≠ draftName x)
    (written : s.writeDocument (Path.join s.root x.text) j = (.ok (), s')) :
    s'.readDocument (Path.join s'.root y.text) = s.readDocument (Path.join s.root y.text) := by
  rcases writeDocument_ok proper written with ⟨-, q, children, d', rfl, below, edited⟩
  refine readDocument_congr fun c => ?_
  simp only [Disk.read_join beside, Disk.descends_congr edited.directories]
  refine and_congr_right fun _ => exists_congr fun there => and_congr_right fun below' => ?_
  obtain rfl := Disk.descends_unique below below'
  rw [Disk.at?_child edited.holds, Disk.at?_child edited.held, get?_replaced other notDraft]

theorem indexPath_eq (root : String) : indexPath root = Path.join root indexName.text := rfl

theorem entryPointsPath_eq (root : String) :
    entryPointsPath root = Path.join root entryPointsName.text := rfl

def indexOf (topN : Nat) (shards : List Shard) : GraphIndex :=
  .ofShards formatVersion 0 topN shards (EntryPoint.ofShards shards)

def entryPointsOf (shards : List Shard) : EntryPointList :=
  ⟨formatVersion, 0, EntryPoint.ofShards shards⟩

/-- Both derived documents are there and say what follows from some shards. -/
structure Documents (s : Store) (topN : Nat) (shards : List Shard) : Prop where
  index : (s.readDocument (indexPath s.root)).map Json.timeless =
    some (indexOf topN shards).toJson.reread.timeless
  entryPoints : (s.readDocument (entryPointsPath s.root)).map Json.timeless =
    some (entryPointsOf shards).toJson.reread.timeless

theorem putIndex_ok {shards : List Shard} {entries : List EntryPoint} {index : GraphIndex}
    (put : putIndex shards entries s = (.ok index, s')) :
    index = .ofShards formatVersion s.now s.topN shards entries ∧
      s.writeDocument (Path.join s.root indexName.text) index.toJson = (.ok (), s') := by
  rw [putIndex] at put
  rcases written : s.writeDocument (indexPath s.root)
    (GraphIndex.ofShards formatVersion s.now s.topN shards entries).toJson with ⟨_ | _, last⟩
  · simp only [written] at put
    cases put
  · simp only [written] at put
    cases put
    exact ⟨rfl, written⟩

theorem putEntryPoints_ok {entries : List EntryPoint} {list : EntryPointList}
    (put : putEntryPoints entries s = (.ok list, s')) :
    list = ⟨formatVersion, s.now, entries⟩ ∧
      s.writeDocument (Path.join s.root entryPointsName.text) list.toJson = (.ok (), s') := by
  rw [putEntryPoints] at put
  rcases written : s.writeDocument (entryPointsPath s.root)
    (EntryPointList.toJson ⟨formatVersion, s.now, entries⟩) with ⟨_ | _, last⟩
  · simp only [written] at put
    cases put
  · simp only [written] at put
    cases put
    exact ⟨rfl, written⟩

theorem buildDerived_documents {shards : List Shard} (contains : s.Contains shards)
    {documents : GraphIndex × EntryPointList} (built : buildDerived s = (.ok documents, s')) :
    s'.Documents s.topN shards ∧ documents.1.summary = (indexOf s.topN shards).summary := by
  rcases contains with ⟨m, ks, holds, listed, rfl⟩
  rcases sweep_shows holds listed with ⟨cache, swept, -⟩
  rw [buildDerived, run_bind, swept] at built
  simp only [run_bind] at built
  rcases first : putIndex (ks.filterMap m) (EntryPoint.ofShards (ks.filterMap m)) { s with cache }
    with ⟨_ | index, indexed⟩
  · rw [first] at built
    cases built
  · rw [first] at built
    simp only [run_bind] at built
    rcases second : putEntryPoints (EntryPoint.ofShards (ks.filterMap m)) indexed with
      ⟨_ | list, last⟩
    · rw [second] at built
      cases built
    · rw [second] at built
      cases built
      rcases putIndex_ok first with ⟨rfl, wroteIndex⟩
      rcases putEntryPoints_ok second with ⟨rfl, wroteList⟩
      have kept := readDocument_beside proper_entryPointsName proper_indexName (by decide)
        (by decide) wroteList
      refine ⟨⟨?_, ?_⟩, rfl⟩
      · rw [indexPath_eq, kept, readDocument_written proper_indexName wroteIndex, Option.map_some]
        exact congrArg some ((indexOf s.topN (ks.filterMap m)).timeless_reread s.now)
      · rw [entryPointsPath_eq, readDocument_written proper_entryPointsName wroteList,
          Option.map_some]
        exact congrArg some ((entryPointsOf (ks.filterMap m)).timeless_reread indexed.now)

end Store

end DataReach
