import DataReach.Proofs.Store.Failures
/-!
Which shards a store cannot write by itself. Only directories are in the way of a document, and none
of what a store does makes or removes one; so it is the same shards all along.
-/

namespace DataReach.Store

variable {α β : Type} {s t u : Store} {k : String}

/-! ### Directories -/

/-- A store in the same place, with the same directories. -/
structure Grounded (s t : Store) : Prop where
  root : t.root = s.root
  directories : ∀ p, t.disk.HasDirectory p ↔ s.disk.HasDirectory p

theorem grounded_refl (s : Store) : Grounded s s := ⟨rfl, fun _ => Iff.rfl⟩

theorem grounded_trans (first : Grounded s t) (second : Grounded t u) : Grounded s u :=
  ⟨second.root.trans first.root, fun p => (second.directories p).trans (first.directories p)⟩

theorem grounded_cache (grounded : Grounded s t) (cache : Cache) : Grounded s { t with cache } :=
  ⟨grounded.root, grounded.directories⟩

theorem grounded_recached (recached : Recached s t) : Grounded s t := by
  rw [recached.same]
  exact ⟨rfl, fun _ => Iff.rfl⟩

/-- The directory of the documents is at a place. -/
structure Housed (s : Store) (p : Place) : Prop where
  inside : s.disk.Descends [] (Path.steps (filesDir s.root)) p

theorem Grounded.housed {p : Place} (grounded : Grounded s t) (housed : s.Housed p) : t.Housed p where
  inside := by
    rw [grounded.root, Disk.descends_congr grounded.directories]
    exact housed.inside

theorem grounded_writeDocument {x : FileName} (proper : x.Proper) (base : String) (j : Json)
    (s : Store) : Grounded s (s.writeDocument (Path.join base x.text) j).2 := by
  rcases outcome : s.writeDocument (Path.join base x.text) j with ⟨e | _, t⟩
  · rcases writeDocument_failed outcome with rfl | ⟨q, children, d', rfl, -, edited⟩
    · exact grounded_refl _
    · exact ⟨rfl, edited.directories⟩
  · obtain ⟨-, q, children, d', rfl, -, edited⟩ := writeDocument_ok proper outcome
    exact ⟨rfl, edited.directories⟩

theorem putIndex_snd (shards : List Shard) (entries : List EntryPoint) (s : Store) :
    (putIndex shards entries s).2 = (s.writeDocument (indexPath s.root)
      (GraphIndex.ofShards formatVersion s.now s.topN shards entries).toJson).2 := by
  rw [putIndex]
  split <;> simp only [*]

theorem putEntryPoints_snd (entries : List EntryPoint) (s : Store) :
    (putEntryPoints entries s).2 = (s.writeDocument (entryPointsPath s.root)
      (EntryPointList.toJson ⟨formatVersion, s.now, entries⟩)).2 := by
  rw [putEntryPoints]
  split <;> simp only [*]

theorem save_snd (shard : Shard) (s : Store) :
    ∃ cache, (save shard s).2 = { (s.writeDocument (shardPath s.root shard.key)
      (shardDocument shard)).2 with cache } := by
  unfold save
  rcases s.writeDocument (shardPath s.root shard.key) (shardDocument shard) with ⟨_ | _, t⟩
  · exact ⟨t.cache, rfl⟩
  · exact ⟨_, rfl⟩

theorem save_disk (shard : Shard) (s : Store) :
    (save shard s).2.disk = (s.writeDocument (shardPath s.root shard.key)
      (shardDocument shard)).2.disk := by
  obtain ⟨cache, same⟩ := save_snd shard s
  rw [same]

theorem grounded_on (x : Action β) (s : Store) : Grounded s (x.on s).2 := by
  cases x with
  | state => exact grounded_refl s
  | load key => exact grounded_recached (recaches_load key s)
  | evict key => exact grounded_recached (recaches_evict key s)
  | save shard =>
    have plain : '/' ∉ shard.key.toList := plain_shardKey shard.file
    have written := grounded_writeDocument (proper_docName plain) (filesDir s.root)
      (shardDocument shard) s
    obtain ⟨cache, same⟩ := save_snd shard s
    rw [← shardPath_eq] at written
    simp only [Action.on]
    rw [same]
    exact grounded_cache written cache
  | putIndex shards entries =>
    simp only [Action.on, putIndex_snd, indexPath_eq]
    exact grounded_writeDocument proper_indexName _ _ s
  | putEntryPoints entries =>
    simp only [Action.on, putEntryPoints_snd, entryPointsPath_eq]
    exact grounded_writeDocument proper_entryPointsName _ _ s

theorem grounded_run (x : Script α) (s : Store) : Grounded s (x.run s).2 := by
  induction x generalizing s with
  | done a => exact grounded_refl s
  | act x next ih => exact grounded_trans (grounded_on x s) (ih _ _)

/-! ### What is in the way -/

def errorOf? {ε α : Type} : Except ε α → Option ε
  | .error e => some e
  | .ok _ => none

def hurdle (s : Store) (k : String) : Option StorageError :=
  errorOf? (s.writeDocument (shardPath s.root k) .null).1

theorem save_fst (shard : Shard) (s : Store) :
    (save shard s).1 = match s.hurdle shard.key with
      | some e => .error e
      | none => .ok shard.key := by
  have plain : '/' ∉ shard.key.toList := plain_shardKey shard.file
  have any := writeDocument_any (filesDir s.root) (proper_docName plain) s .null
    (shardDocument shard)
  rw [← shardPath_eq] at any
  rw [hurdle, ← any]
  unfold save
  rcases s.writeDocument (shardPath s.root shard.key) (shardDocument shard) with ⟨_ | _, t⟩ <;> rfl

theorem hurdle_congr {p : Place} (plain : '/' ∉ k.toList) (root : t.root = s.root)
    (housed : s.Housed p) (housed' : t.Housed p)
    (draft : t.disk.HasDirectory (p ++ [draftName (docName k plain)]) ↔
      s.disk.HasDirectory (p ++ [draftName (docName k plain)]))
    (target : t.disk.HasDirectory (p ++ [docName k plain]) ↔
      s.disk.HasDirectory (p ++ [docName k plain])) : t.hurdle k = s.hurdle k := by
  have inside' := housed'.inside
  rw [root] at inside'
  have same := writeDocument_congr (proper_docName plain) housed.inside inside' draft target .null
    .null
  rw [← shardPath_eq] at same
  rw [hurdle, hurdle, root, same]

theorem hurdle_grounded {p : Place} (housed : s.Housed p) (plain : '/' ∉ k.toList)
    (grounded : Grounded s t) : t.hurdle k = s.hurdle k :=
  hurdle_congr plain grounded.root housed (grounded.housed housed) (grounded.directories _)
    (grounded.directories _)

def Dictated (s : Store) (moments : List Moment) : Prop :=
  ∀ m ∈ moments, ∀ w, m.write = some w → '/' ∉ w.1.toList ∧ w.2 = s.hurdle w.1

theorem dictated_on (x : Action β) (s : Store) :
    Dictated s [⟨(x.on s).2, x.write? (x.on s).1⟩] := by
  intro m member w write
  obtain rfl := List.mem_singleton.mp member
  cases x with
  | save shard =>
    simp only [Action.on, save_fst] at write
    cases blocked : s.hurdle shard.key with
    | none =>
      simp only [blocked, Action.write?, Option.some.injEq] at write
      rw [← write]
      exact ⟨plain_shardKey shard.file, blocked.symm⟩
    | some e =>
      simp only [blocked, Action.write?, Option.some.injEq] at write
      rw [← write]
      exact ⟨plain_shardKey shard.file, blocked.symm⟩
  | _ => cases write

/-- When a store is left alone, the same shards cannot be written from first to last. -/
theorem dictated_trace {p : Place} (x : Script α) {s : Store}
    (housed : s.Housed p) : Dictated s (x.trace s) := by
  induction x generalizing s with
  | done a => exact nofun
  | act x next ih =>
    intro m member w write
    have grounded := grounded_on x s
    rcases List.mem_cons.mp member with rfl | later
    · exact dictated_on x s _ (List.mem_singleton_self _) w write
    · obtain ⟨plain, outcome⟩ := ih _ (grounded.housed housed) m later w write
      exact ⟨plain, outcome.trans (hurdle_grounded housed plain grounded)⟩

theorem failures_dictated {moments : List Moment} (dictated : Dictated s moments) :
    failures moments = (attempts moments).filterMap fun k => (s.hurdle k).map (k, ·) := by
  rw [failures, attempts, List.filterMap_filterMap]
  apply List.filterMap_congr
  intro m member
  rw [Moment.failure?]
  cases write : m.write with
  | none => rfl
  | some w =>
    obtain ⟨-, outcome⟩ := dictated m member w write
    rw [Option.bind_some, outcome]
    rfl

end DataReach.Store
