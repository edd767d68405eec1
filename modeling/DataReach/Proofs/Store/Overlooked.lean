import DataReach.Proofs.Store.Clutter
/-!
A store with entries that no shard can be read from, beside the same store without them. Nothing tells
them apart: not the answers, not the derived documents, not what resolving leaves.
-/

namespace DataReach.Store

variable {α β : Type} {s t u v : Store} {ks ks' : List String} {q place : Place}
  {children extra : Dict FileName DiskEntry}

/-! ### The store with more entries -/

theorem keyed_batchSize (keyed : s.Keyed ks) (batchSize : Nat) :
    ({ s with batchSize } : Store).Keyed ks :=
  ⟨keyed.listed, keyed.ascending, keyed.own⟩

theorem hurdle_batchSize (s : Store) (batchSize : Nat) (k : String) :
    ({ s with batchSize } : Store).hurdle k = s.hurdle k := by
  have same := writeDocument_same (s := s) (t := { s with batchSize }) rfl (shardPath s.root k) .null
  rw [hurdle, hurdle, same]

section Clutter

variable (located : s.Located q children) (keyed : s.Keyed ks) (clutter : s.Clutter ks extra)

include located keyed clutter in
theorem cluttered_withEntries (batchSize : Nat) :
    ∃ ks', Cluttered ks ks' (q ++ [filesName]) s { s.withEntries extra with batchSize } ∧
      ∀ k ∈ docKeys extra, k ∈ ks' := by
  obtain ⟨ks', keyed', members⟩ := keyed_withEntries located keyed clutter
  have located' := located_withEntries located extra
  have cache : (s.withEntries extra).cache = s.cache := by rw [withEntries_eq located]
  have some : ∀ k ∈ ks', k ≠ "" := by
    intro k member
    obtain ⟨-, some, -⟩ := mem_docKeys.mp ((mem_listed located' keyed').mp member)
    exact some
  have read : ∀ k ∈ ks', (s.withEntries extra).readShard k = s.readShard k := fun k member =>
    readShard_withEntries located keyed clutter (keyed'.plain member) (some k member)
  have shown : ∀ k ∈ ks', (s.withEntries extra).shown k = s.shown k := by
    intro k member
    rw [Store.shown, Store.shown, cache, read k member]
  have subset : ∀ k ∈ ks, k ∈ ks' := fun k member => (members k).mpr (.inl member)
  refine ⟨ks', ?_, fun k junk => (members k).mpr (.inr junk)⟩
  constructor
  · exact keyed
  · exact keyed_batchSize keyed' batchSize
  · exact subset
  · exact fun k member => shown k (subset k member)
  · exact fun k member => read k (subset k member)
  · intro k member junk
    have apart := clutter.apart (((members k).mp member).resolve_left junk)
    have absent := readShard_unlisted keyed.listed (keyed'.plain member) (some k member) junk
    calc ({ s.withEntries extra with batchSize } : Store).shown k
      _ = s.shown k := shown k member
      _ = none := by rw [Store.shown, apart.2, absent]; rfl
  · exact located.toOpened.housed
  · exact ⟨located'.toOpened.housed.inside⟩
  · intro k member
    rw [hurdle_batchSize, hurdle_withEntries located keyed clutter member]

end Clutter

/-! ### Beside the documents of the shards -/

/-- Two stores at one place, with the same directories beside that of the documents. -/
structure Level (q : Place) (s t : Store) : Prop where
  root : t.root = s.root
  now : t.now = s.now
  topN : t.topN = s.topN
  below : s.disk.Descends [] (Path.steps s.root) q
  below' : t.disk.Descends [] (Path.steps s.root) q
  beside : ∀ y, y ≠ filesName →
    (t.disk.HasDirectory (q ++ [y]) ↔ s.disk.HasDirectory (q ++ [y]))

/-- An action that comes to the same in any two such stores, and does not touch the documents. -/
structure Levels (q : Place) (x : StateM Store α) : Prop where
  same : ∀ s t, Level q s t → (x t).1 = (x s).1 ∧ Level q (x s).2 (x t).2
  spares : Spares (q ++ [filesName]) x

theorem level_withEntries (located : s.Located q children) (extra : Dict FileName DiskEntry)
    (batchSize : Nat) : Level q s { s.withEntries extra with batchSize } := by
  have located' := located_withEntries located extra
  have root : (s.withEntries extra).root = s.root := by rw [withEntries_eq located]
  constructor
  · exact root
  · rw [withEntries_eq located]
  · rw [withEntries_eq located]
  · exact located.below
  · rw [← root]
    exact located'.below
  · intro y other
    rw [Disk.HasDirectory, Disk.HasDirectory, beside_withEntries located extra other]

theorem level_recached (level : Level q s t) (first : Recached s u) (second : Recached t v) :
    Level q u v := by
  rw [first.same, second.same]
  exact ⟨level.root, level.now, level.topN, level.below, level.below', level.beside⟩

theorem writeDocument_snd (s : Store) (path : String) (j : Json) :
    ∃ disk, (s.writeDocument path j).2 = { s with disk } := by
  rw [writeDocument]
  cases s.disk.write (path ++ ".tmp") (.document j.reread) with
  | error e => exact ⟨s.disk, rfl⟩
  | ok drafted =>
    simp only
    cases drafted.rename (path ++ ".tmp") path with
    | error e => exact ⟨drafted, rfl⟩
    | ok moved => exact ⟨moved, rfl⟩

theorem level_writeDocument {x : FileName} (proper : x.Proper) (other : x ≠ filesName)
    (notDraft : draftName x ≠ filesName) (level : Level q s t) (j : Json) :
    (t.writeDocument (Path.join s.root x.text) j).1 =
        (s.writeDocument (Path.join s.root x.text) j).1 ∧
      Level q (s.writeDocument (Path.join s.root x.text) j).2
        (t.writeDocument (Path.join s.root x.text) j).2 := by
  have grounded := grounded_writeDocument proper s.root j s
  have grounded' := grounded_writeDocument proper s.root j t
  obtain ⟨disk, wrote⟩ := writeDocument_snd s (Path.join s.root x.text) j
  obtain ⟨disk', wrote'⟩ := writeDocument_snd t (Path.join s.root x.text) j
  refine ⟨writeDocument_congr proper level.below level.below' (level.beside _ notDraft)
    (level.beside _ other) j j, ?_⟩
  rw [wrote] at grounded ⊢
  rw [wrote'] at grounded' ⊢
  constructor
  · exact level.root
  · exact level.now
  · exact level.topN
  · exact (Disk.descends_congr grounded.directories).mpr level.below
  · exact (Disk.descends_congr grounded'.directories).mpr level.below'
  · intro y other
    exact (grounded'.directories _).trans ((level.beside y other).trans (grounded.directories _).symm)

theorem levels_pure (a : α) : Levels q (pure a) :=
  ⟨fun _ _ level => ⟨rfl, level⟩, spares_pure a⟩

theorem levels_bind {x : StateM Store α} {f : α → StateM Store β} (first : Levels q x)
    (rest : ∀ a, Levels q (f a)) : Levels q (x >>= f) where
  same := by
    intro s t level
    obtain ⟨same, after⟩ := first.same s t level
    rw [run_bind, run_bind, same]
    exact (rest _).same _ _ after
  spares := spares_bind first.spares fun a => (rest a).spares

theorem levels_putIndex (shards : List Shard) (entries : List EntryPoint) :
    Levels q (putIndex shards entries) := by
  refine ⟨fun s t level => ?_, spares_putIndex shards entries⟩
  rw [putIndex_eq, putIndex_eq, putIndex_snd, putIndex_snd, level.root, level.now, level.topN,
    indexPath_eq]
  obtain ⟨same, after⟩ := level_writeDocument proper_indexName (by decide) (by decide) level
    (GraphIndex.ofShards formatVersion s.now s.topN shards entries).toJson
  exact ⟨by rw [same], after⟩

theorem putEntryPoints_eq (entries : List EntryPoint) (s : Store) :
    (putEntryPoints entries s).1 = (s.writeDocument (entryPointsPath s.root)
      (EntryPointList.toJson ⟨formatVersion, s.now, entries⟩)).1.map
        fun _ => ⟨formatVersion, s.now, entries⟩ := by
  rw [putEntryPoints]
  rcases s.writeDocument (entryPointsPath s.root)
    (EntryPointList.toJson ⟨formatVersion, s.now, entries⟩) with ⟨_ | _, u⟩ <;> rfl

theorem levels_putEntryPoints (entries : List EntryPoint) : Levels q (putEntryPoints entries) := by
  refine ⟨fun s t level => ?_, spares_putEntryPoints entries⟩
  rw [putEntryPoints_eq, putEntryPoints_eq, putEntryPoints_snd, putEntryPoints_snd, level.root,
    level.now, entryPointsPath_eq]
  obtain ⟨same, after⟩ := level_writeDocument proper_entryPointsName (by decide) (by decide) level
    (EntryPointList.toJson ⟨formatVersion, s.now, entries⟩)
  exact ⟨by rw [same], after⟩

/-! ### Nothing is noticed -/

def Intact (place : Place) (extra : Dict FileName DiskEntry) (t : Store) : Prop :=
  ∀ x e, (x, e) ∈ extra → t.disk.at? (place ++ [x]) = some e

/-- An action comes to the same in two stores, and leaves the entries that the second one has. -/
structure Ignores (place : Place) (extra : Dict FileName DiskEntry) (s t : Store)
    (x : StateM Store α) : Prop where
  same : (x t).1 = (x s).1
  intact : Intact place extra (x t).2

theorem intact_of_spares {x : StateM Store α} (spares : Spares place x)
    (housed : t.Housed place)
    (intact : Intact place extra t) : Intact place extra (x t).2 := by
  intro y e member
  rw [(spares t housed).2 y]
  exact intact y e member

theorem ignores_map {x : StateM Store α} {f : α → β} (ignores : Ignores place extra s t x) :
    Ignores place extra s t (do return f (← x)) where
  same := congrArg f ignores.same
  intact := ignores.intact

section Cluttered

variable (cluttered : Cluttered ks ks' (q ++ [filesName]) s t)
  (intact : Intact (q ++ [filesName]) extra t)

include cluttered intact

theorem ignores_sweep : Ignores (q ++ [filesName]) extra s t sweep where
  same := cluttered_sweep cluttered
  intact := intact_of_spares (spares_of_recaches recaches_sweep) cluttered.housed' intact

theorem ignores_derived (level : Level q s t) {x : StateM Store (Except StorageError β)}
    {f : List Shard → StateM Store (Except StorageError β)} (levels : ∀ shards, Levels q (f shards))
    (made : x = sweep >>= fun
      | .error e => return .error e
      | .ok shards => f shards) : Ignores (q ++ [filesName]) extra s t x := by
  subst made
  constructor
  · have level' := level_recached level (recaches_sweep s) (recaches_sweep t)
    rw [run_bind, run_bind, cluttered_sweep cluttered]
    cases (sweep s).1 with
    | error e => rfl
    | ok shards => exact ((levels shards).same _ _ level').1
  · apply intact_of_spares _ cluttered.housed' intact
    apply spares_bind (spares_of_recaches recaches_sweep)
    intro swept
    cases swept with
    | error e => exact spares_pure _
    | ok shards => exact (levels shards).spares

theorem ignores_buildDerived (level : Level q s t) :
    Ignores (q ++ [filesName]) extra s t buildDerived := by
  refine ignores_derived cluttered intact level (fun shards => ?_) rfl
  apply levels_bind (levels_putIndex _ _)
  intro first
  cases first with
  | error e => exact levels_pure _
  | ok index =>
    apply levels_bind (levels_putEntryPoints _)
    intro second
    cases second <;> exact levels_pure _

end Cluttered

/-! ### Resolving -/

section Resolve

variable {size size' : Nat}

theorem cancels_resolving (index : NameIndex) (a b : Diagnostics)
    (same : ((Pass.resolving index).saved a).unbatched =
      ((Pass.resolving index).saved b).unbatched) : a.unbatched = b.unbatched := by
  cases a
  cases b
  simp only [Pass.resolving, Diagnostics.unbatched, Diagnostics.mk.injEq, Nat.add_right_cancel_iff]
    at same ⊢
  exact same

theorem overlooks_givingCallers (m : CallerMap) : (Pass.givingCallers m).Overlooks id :=
  ⟨fun _ same => same, congrArg (· + 1), fun _ => rfl⟩

theorem cancels_givingCallers (m : CallerMap) (a b : Nat)
    (same : id ((Pass.givingCallers m).saved a) = id ((Pass.givingCallers m).saved b)) :
    id a = id b := Nat.succ.inj same

theorem resolve_stages {patience left rest : Patience} {r : Outcome Diagnostics}
    {callers : Outcome Nat} (first : (resolveEdges size patience s).1 = .ok (r, left))
    (second : (materializeCallers size left (resolveEdges size patience s).2).1 =
      .ok (callers, rest)) :
    resolve size patience s = (.ok { r with errors := r.errors ++ callers.errors },
      (materializeCallers size left (resolveEdges size patience s).2).2) := by
  rcases edges : resolveEdges size patience s with ⟨out, u⟩
  rw [edges] at first second
  obtain rfl : out = .ok (r, left) := first
  rcases giving : materializeCallers size left u with ⟨out', v⟩
  rw [giving] at second
  obtain rfl : out' = .ok (callers, rest) := second
  rw [resolve, run_bind, edges]
  simp only [run_bind, giving]
  rfl

theorem cluttered_resolve (cluttered : Cluttered ks ks' place s t) (size size' : Nat) :
    ∃ r r', (resolve size none s).1 = .ok r ∧ (resolve size' none t).1 = .ok r' ∧
      r'.errors = r.errors ∧ r'.data.unbatched = r.data.unbatched ∧
      Cluttered ks ks' place (resolve size none s).2 (resolve size' none t).2 ∧
      ∀ y k, keyOfName y.text = some k → k ∉ ks →
        (resolve size' none t).2.disk.at? (place ++ [y]) = t.disk.at? (place ++ [y]) := by
  obtain ⟨r, r', edges, edges', errors, data, between, stays⟩ :=
    cluttered_swept (fun shards => Pass.rekeys_resolving (.ofShards shards))
      (fun shards => Pass.defers_resolving (.ofShards shards))
      (fun shards => Pass.overlooks_resolving (.ofShards shards))
      (fun shards => cancels_resolving (.ofShards shards)) cluttered {}
      (Script.resolveEdges size none) (Script.resolveEdges size' none) rfl rfl
  obtain ⟨c, c', callers, callers', more, -, last, stays'⟩ :=
    cluttered_swept (fun shards => Pass.rekeys_givingCallers (.ofShards shards))
      (fun shards => Pass.defers_givingCallers (.ofShards shards))
      (fun shards => overlooks_givingCallers (.ofShards shards))
      (fun shards => cancels_givingCallers (.ofShards shards)) between 0
      (Script.materializeCallers size none) (Script.materializeCallers size' none) rfl rfl
  rw [Script.run_resolveEdges] at edges edges' callers callers' stays stays' last
  rw [Script.run_materializeCallers] at callers callers' stays' last
  rw [Script.run_resolveEdges, Script.run_materializeCallers] at last
  rw [resolve_stages edges callers, resolve_stages edges' callers']
  dsimp only
  exact ⟨_, _, rfl, rfl, by rw [errors, more], data, last, fun y k named junk =>
    (stays' y k named junk).trans (stays y k named junk)⟩

end Resolve

/-! ### Entries that are overlooked -/

/-- One store has entries that another has not, and nothing comes of them: they are absent when asked
for, all that goes over the shards comes to the same in both stores, and they stay. -/
structure Overlooked (place : Place) (extra : Dict FileName DiskEntry) (s t : Store) : Prop where
  there : Intact place extra t
  load : ∀ k ∈ docKeys extra, (load k t).1 = none ∧ Intact place extra (load k t).2
  function : ∀ id file, FunctionNode.fileOfId id = some file → shardKey file ∈ docKeys extra →
    (function id t).1 = none ∧ Intact place extra (function id t).2
  sweep : Ignores place extra s t sweep
  stats : Ignores place extra s t stats
  index : Ignores place extra s t buildIndex
  entryPoints : Ignores place extra s t buildEntryPoints
  derived : Ignores place extra s t buildDerived
  functions : ∀ table, Ignores place extra s t (functionsByTable table)
  accesses : ∀ table, Ignores place extra s t (accessesByTable table)
  named : ∀ name, Ignores place extra s t (answer (.named name))
  accessing : ∀ table field, Ignores place extra s t (answer (.accessing table field))
  resolve : ∀ size size', ∃ r r', (resolve size none s).1 = .ok r ∧
    (resolve size' none t).1 = .ok r' ∧ r'.errors = r.errors ∧
    r'.data.unbatched = r.data.unbatched ∧
    (∀ k, '/' ∉ k.toList → k ≠ "" →
      (resolve size' none t).2.readShard k = (resolve size none s).2.readShard k) ∧
    Intact place extra (resolve size' none t).2

theorem cluttered_read (cluttered : Cluttered ks ks' place s t) {k : String}
    (plain : '/' ∉ k.toList) (some : k ≠ "") : t.readShard k = s.readShard k := by
  by_cases member : k ∈ ks
  · exact cluttered.read k member
  · rw [readShard_unlisted cluttered.keyed.listed plain some member]
    by_cases junk : k ∈ ks'
    · exact cluttered.unread junk member
    · exact readShard_unlisted cluttered.keyed'.listed plain some junk

theorem intact_withEntries (located : s.Located q children) (keyed : s.Keyed ks)
    (clutter : s.Clutter ks extra) : Intact (q ++ [filesName]) extra (s.withEntries extra) := by
  intro x e member
  rw [Disk.at?_child (located_withEntries located extra).held]
  exact get?_withEntries_junk located keyed clutter member

/-- A store is the same with and without entries that no shard can be read from, in batches of any
size. -/
theorem clutter_overlooked (keyed : s.Keyed ks)
    (found : s.disk.find (filesDir s.root) = .ok (place, .directory children))
    (clutter : s.Clutter ks extra) (batchSize : Nat) :
    Overlooked place extra s { s.withEntries extra with batchSize } := by
  obtain ⟨q, rfl, located⟩ := located_of_find found
  obtain ⟨ks', cluttered, listed⟩ := cluttered_withEntries located keyed clutter batchSize
  have level := level_withEntries located extra batchSize
  have intact : Intact (q ++ [filesName]) extra { s.withEntries extra with batchSize } :=
    intact_withEntries located keyed clutter
  have hidden : ∀ k ∈ docKeys extra,
      ({ s.withEntries extra with batchSize } : Store).shown k = none := fun k junk =>
    cluttered.hidden k (listed k junk) (clutter.apart junk).1
  generalize ({ s.withEntries extra with batchSize } : Store) = t at *
  have swept := ignores_sweep cluttered intact
  have spared {α : Type} {x : StateM Store α} (recaches : Recaches x) :
      Intact (q ++ [filesName]) extra (x t).2 :=
    intact_of_spares (spares_of_recaches recaches) cluttered.housed' intact
  constructor
  · exact intact
  · intro k junk
    exact ⟨(load_fst k t).trans (hidden k junk), spared (recaches_load k)⟩
  · intro id file names junk
    have absent := (load_fst (shardKey file) t).trans (hidden _ junk)
    rw [function, names]
    refine ⟨?_, spared (recaches_bind (recaches_load _) fun _ => recaches_pure _)⟩
    simp only [run_bind, loadPath, absent]
    rfl
  · exact swept
  · exact ignores_map swept
  · exact ignores_derived cluttered intact level (fun _ => levels_putIndex _ _) rfl
  · exact ignores_derived cluttered intact level (fun _ => levels_putEntryPoints _) rfl
  · exact ignores_buildDerived cluttered intact level
  · exact fun table => ignores_map swept
  · exact fun table => ignores_map swept
  · exact fun name => ignores_map (ignores_map swept)
  · exact fun table field => ignores_map (ignores_map swept)
  · intro size size'
    obtain ⟨r, r', result, result', errors, data, after, stays⟩ :=
      cluttered_resolve cluttered size size'
    refine ⟨r, r', result, result', errors, data, fun k plain some =>
      cluttered_read after plain some, fun x e member => ?_⟩
    obtain ⟨k, named, junk, -⟩ := clutter.named x (List.mem_map_of_mem member)
    rw [stays x k named junk]
    exact intact x e member

/-- Half a document, a document of something else, one of another version, and a directory. -/
def oddEntries : Dict FileName DiskEntry :=
  [(⟨"0000000000000000.json", by decide⟩, .file (.text "\x7b")),
   (⟨"1111111111111111.json", by decide⟩, .file (.document (.arr []))),
   (⟨"2222222222222222.json", by decide⟩, .file (.document
     (.obj [("version", .str "0.9"), ("file", .str "a"), ("functions", .arr [])]))),
   (⟨"3333333333333333.json", by decide⟩, .directory [])]

theorem clutter_overlooked_cold :
    ∃ ks place children, coldStore.Keyed ks ∧ ks.length = 3 ∧
      coldStore.disk.find (filesDir coldStore.root) = .ok (place, .directory children) ∧
      coldStore.Clutter ks oddEntries ∧
      Overlooked place oddEntries coldStore
        { coldStore.withEntries oddEntries with batchSize := 2 } := by
  obtain ⟨ks, keyed⟩ := reached_keyed coldStore_reached
  have listed : coldStore.keys.toOption.any (fun ks => decide (ks.length = 3 ∧
      ∀ x ∈ oddEntries.keys, ∃ k ∈ keyOfName x.text, k ∉ ks)) = true := by
    decide +kernel
  rw [keyed.listed] at listed
  obtain ⟨three, fresh⟩ := of_decide_eq_true listed
  have empty : coldStore.cache.shards = [] := by
    apply List.length_eq_zero_iff.mp
    decide +kernel
  have clutter : coldStore.Clutter ks oddEntries := by
    constructor
    · decide
    · intro x member
      obtain ⟨k, named, absent⟩ := fresh x member
      exact ⟨k, named, absent, by rw [empty]; rfl⟩
    · intro x e member
      have unreadable : oddEntries.all (fun entry => entry.2.shard?.isNone) = true := by
        decide +kernel
      exact Option.isNone_iff_eq_none.mp (List.all_eq_true.mp unreadable (x, e) member)
  rcases keys_cases keyed.listed with ⟨q, children, opened, passable, -⟩ | ⟨rfl, -⟩
  · have found := find_of_opened opened passable
    exact ⟨ks, _, children, keyed, three, found, clutter, clutter_overlooked keyed found clutter 2⟩
  · cases three

end DataReach.Store
