import DataReach.Proofs.Store.Derived
import DataReach.Proofs.Store.Session
/-!
What a store shows, whatever its cache keeps beside its documents, and the actions that write no
shard. A sweep gives what is shown for the keys that are listed, in batches of any size. Afterwards
the documents are as they were, and the cache keeps nothing but what it kept and what they say.
-/

namespace DataReach.Store

variable {α β : Type} {s t u : Store} {ks : List String}

/-! ### Loading -/

def shown (s : Store) (k : String) : Option Shard := (s.cache.shards.get? k).or (s.readShard k)

theorem load_fst (key : String) (s : Store) : (load key s).1 = s.shown key := by
  rw [load, Cache.find, shown]
  cases s.cache.shards.get? key with
  | some kept => rfl
  | none => cases s.readShard key <;> rfl

theorem get?_insert_cache {cache : Cache} {key : String} {shard : Shard} (k : String) :
    (cache.insert key shard).shards.get? k = cache.shards.get? k ∨
      k = key ∧ (cache.insert key shard).shards.get? k = some shard := by
  rw [Cache.insert]
  split
  · exact .inl rfl
  · rw [Dict.get?_insert]
    split
    · next same => exact .inr ⟨same, rfl⟩
    · exact .inl rfl

theorem shown_load (key k : String) (s : Store) : (load key s).2.shown k = s.shown k := by
  rw [load, Cache.find]
  cases cached : s.cache.shards.get? key with
  | some kept => rfl
  | none =>
    cases read : s.readShard key with
    | none => rfl
    | some shard =>
      simp only
      rcases @get?_insert_cache { s.cache with misses := s.cache.misses + 1 } key shard k with
        old | ⟨rfl, new⟩
      · rw [shown, old]
        rfl
      · rw [shown, new, shown, cached, read]
        rfl

theorem loadEach_shown (keys : List String) (s : Store) :
    (loadEach keys s).1 = keys.filterMap s.shown ∧
      ∀ k, (loadEach keys s).2.shown k = s.shown k := by
  induction keys generalizing s with
  | nil => exact ⟨rfl, fun _ => rfl⟩
  | cons key rest ih =>
    obtain ⟨others, same⟩ := ih (load key s).2
    have after := funext fun k => shown_load key k s
    rw [loadEach, run_bind, run_bind, run_pure]
    constructor
    · simp only
      rw [others, after, load_fst, List.filterMap_cons]
      cases s.shown key <;> rfl
    · intro k
      rw [← shown_load key k s]
      exact same k

theorem shown_evictEach {keys : List String} {k : String} (other : k ∉ keys) (s : Store) :
    (evictEach keys s).2.shown k = s.shown k := by
  induction keys generalizing s with
  | nil => rfl
  | cons key rest ih =>
    rw [List.mem_cons, not_or] at other
    have first : (evict key s).2.shown k = s.shown k := by
      change ((s.cache.evict key).shards.get? k).or (s.readShard k) = _
      rw [Cache.evict, Dict.get?_erase, if_neg other.1, shown]
    rw [evictEach, run_bind, ih other.2, first]

/-- Each key is loaded before its batch leaves the cache, so it does not matter where a batch
ends. -/
theorem sweepBatches_shown {batches : List (List String)} (once : batches.flatten.Nodup)
    (s : Store) : (sweepBatches batches s).1 = batches.flatten.filterMap s.shown := by
  induction batches generalizing s with
  | nil => rfl
  | cons batch rest ih =>
    rw [List.flatten_cons, List.nodup_append] at once
    obtain ⟨-, later, apart⟩ := once
    obtain ⟨found, same⟩ := loadEach_shown batch s
    have others : rest.flatten.filterMap (evictEach batch (loadEach batch s).2).2.shown =
        rest.flatten.filterMap s.shown := by
      apply List.filterMap_congr
      intro k member
      rw [shown_evictEach fun before => apart k before k member rfl, same]
    rw [sweepBatches, run_bind, run_bind, run_bind, run_pure]
    simp only
    rw [found, ih later, others, List.flatten_cons, List.filterMap_append]

theorem sweep_fst (listed : s.keys = .ok ks) (once : ks.Nodup) :
    (sweep s).1 = .ok (ks.filterMap s.shown) := by
  have apart : (chunks s.batchSize ks).flatten.Nodup := by rwa [flatten_chunks]
  have batches := sweepBatches_shown apart s
  rw [flatten_chunks] at batches
  rw [sweep, run_bind, run_get]
  simp only [listed, run_bind, run_pure, batches]

/-! ### Actions that change the cache alone -/

/-- A state differs from another in the cache alone, and this keeps nothing but what it kept there
and what the documents say. -/
structure Recached (s t : Store) : Prop where
  same : t = { s with cache := t.cache }
  kept : ∀ k shard, t.cache.shards.get? k = some shard →
    s.cache.shards.get? k = some shard ∨ s.readShard k = some shard
  idle : (s.cache.capacity = 0 → s.cache.shards = []) →
    t.cache.capacity = 0 → t.cache.shards = []

theorem recached_refl (s : Store) : Recached s s :=
  ⟨rfl, fun _ _ kept => .inl kept, fun idle => idle⟩

theorem recached_trans (first : Recached s t) (second : Recached t u) : Recached s u where
  same := by rw [second.same, first.same]
  kept := by
    intro k shard found
    rcases second.kept k shard found with old | read
    · exact first.kept k shard old
    · rw [first.same] at read
      exact .inr read
  idle := fun idle => second.idle (first.idle idle)

def Recaches (x : StateM Store α) : Prop := ∀ s, Recached s (x s).2

theorem recaches_pure (a : α) : Recaches (pure a) := recached_refl

theorem recaches_get : Recaches get := recached_refl

theorem recaches_bind {x : StateM Store α} {f : α → StateM Store β} (first : Recaches x)
    (rest : ∀ a, Recaches (f a)) : Recaches (x >>= f) := fun s =>
  recached_trans (first s) (rest (x s).1 (x s).2)

theorem recaches_load (key : String) : Recaches (load key) := by
  intro s
  rw [load, Cache.find]
  cases cached : s.cache.shards.get? key with
  | some kept => exact ⟨rfl, fun _ _ old => .inl old, fun idle => idle⟩
  | none =>
    cases read : s.readShard key with
    | none =>
      simp only
      exact ⟨rfl, fun _ _ old => .inl old, fun idle => idle⟩
    | some shard =>
      simp only
      refine ⟨rfl, fun k other found => ?_, fun idle zero => ?_⟩
      · rcases @get?_insert_cache { s.cache with misses := s.cache.misses + 1 } key shard k with
          old | ⟨rfl, new⟩
        · exact .inl (old.symm.trans found)
        · rw [new] at found
          exact .inr (read.trans found)
      · rw [Cache.insert] at zero ⊢
        split at zero
        · next none => rw [if_pos none]; exact idle none
        · next some => exact absurd zero some

theorem recaches_evict (key : String) : Recaches (evict key) := by
  intro s
  refine ⟨rfl, fun k shard found => ?_, fun idle zero => ?_⟩
  · change (Dict.erase s.cache.shards key).get? k = some shard at found
    rw [Dict.get?_erase] at found
    split at found
    · cases found
    · exact .inl found
  · change Dict.erase s.cache.shards key = []
    rw [idle zero]
    rfl

theorem recaches_evictAll : Recaches evictAll := fun _ =>
  ⟨rfl, (fun _ _ found => nomatch found), fun _ _ => rfl⟩

theorem recaches_evictEach (keys : List String) : Recaches (evictEach keys) := by
  induction keys with
  | nil => exact recaches_pure _
  | cons key rest ih => exact recaches_bind (recaches_evict key) fun _ => ih

section Losing

variable (losses : String → List String)

theorem recaches_loadEachLosing (keys : List String) : Recaches (loadEachLosing losses keys) := by
  induction keys with
  | nil => exact recaches_pure _
  | cons key rest ih =>
    apply recaches_bind (recaches_evictEach (losses key))
    intro _
    apply recaches_bind (recaches_load key)
    intro _
    exact recaches_bind ih fun _ => recaches_pure _

theorem recaches_sweepLosing : Recaches (sweepLosing losses) := by
  have batches : ∀ bs, Recaches (sweepBatchesLosing losses bs) := by
    intro bs
    induction bs with
    | nil => exact recaches_pure _
    | cons batch rest ih =>
      apply recaches_bind (recaches_loadEachLosing losses batch)
      intro _
      apply recaches_bind (recaches_evictEach batch)
      intro _
      exact recaches_bind ih fun _ => recaches_pure _
  apply recaches_bind recaches_get
  intro s
  cases s.keys with
  | error e => exact recaches_pure _
  | ok keys => exact recaches_bind (batches _) fun _ => recaches_pure _

end Losing

theorem recaches_sweep : Recaches sweep := sweepLosing_nothing ▸ recaches_sweepLosing _

/-! ### Writing beside the shards -/

theorem writeDocument_failed {base : String} {x : FileName} {j : Json} {e : StorageError}
    (failed : s.writeDocument (Path.join base x.text) j = (.error e, t)) :
    t = s ∨ ∃ q children d', t = { s with disk := d' } ∧
      s.disk.Descends [] (Path.steps base) q ∧
      Disk.Edited s.disk d' q children
        (children.insert (draftName x) (.file (.document j.reread))) := by
  have draft : Path.join base x.text ++ ".tmp" = Path.join base (draftName x).text :=
    Path.join_append base rfl
  rw [writeDocument, draft] at failed
  cases first : s.disk.write (Path.join base (draftName x).text) (.document j.reread) with
  | error err =>
    simp only [first] at failed
    cases failed
    exact .inl rfl
  | ok disk =>
    simp only [first] at failed
    cases second : disk.rename (Path.join base (draftName x).text) (Path.join base x.text) with
    | ok disk' =>
      simp only [second] at failed
      cases failed
    | error err =>
      simp only [second] at failed
      cases failed
      obtain ⟨-, q, below, free, rfl⟩ := (Disk.write_join (proper_draftName x)).mp first
      obtain ⟨children, held⟩ := Disk.hasDirectory_iff.mp
        (Disk.hasDirectory_of_descends s.disk.hasDirectory_top below)
      exact .inr ⟨q, children, _, rfl, below, Disk.edited_put held free _⟩

/-- No shard was written or removed on the way from a state to another. -/
structure Unwritten (s t : Store) : Prop where
  files : SameFiles s t
  root : t.root = s.root
  topN : t.topN = s.topN
  kept : ∀ k shard, '/' ∉ k.toList → t.cache.shards.get? k = some shard →
    s.cache.shards.get? k = some shard ∨ s.readShard k = some shard
  idle : (s.cache.capacity = 0 → s.cache.shards = []) →
    t.cache.capacity = 0 → t.cache.shards = []

theorem unwritten_trans (first : Unwritten s t) (second : Unwritten t u) : Unwritten s u where
  files := by
    refine ⟨second.files.keys.trans first.files.keys, fun k plain => ?_⟩
    rw [second.files.read k plain, first.files.read k plain]
  root := second.root.trans first.root
  topN := second.topN.trans first.topN
  kept := by
    intro k shard plain found
    rcases second.kept k shard plain found with old | read
    · exact first.kept k shard plain old
    · rw [first.files.read k plain] at read
      exact .inr read
  idle := fun idle => second.idle (first.idle idle)

theorem unwritten_of_recached (recached : Recached s t) : Unwritten s t := by
  obtain ⟨same, kept, idle⟩ := recached
  rw [same] at kept idle ⊢
  exact ⟨⟨rfl, fun _ _ => rfl⟩, rfl, rfl, fun k shard _ => kept k shard, idle⟩

theorem unwritten_of_files {disk : Disk} (files : SameFiles s { s with disk }) :
    Unwritten s { s with disk } :=
  ⟨files, rfl, rfl, fun _ _ _ old => .inl old, fun idle => idle⟩

theorem unwritten_writeDocument {x : FileName} (proper : x.Proper) (other : filesName ≠ x)
    (notDraft : filesName ≠ draftName x) (j : Json) (s : Store) :
    Unwritten s (s.writeDocument (Path.join s.root x.text) j).2 := by
  rcases outcome : s.writeDocument (Path.join s.root x.text) j with ⟨e | _, t⟩
  · rcases writeDocument_failed outcome with rfl | ⟨q, children, d', rfl, below, edited⟩
    · exact unwritten_of_recached (recached_refl t)
    · apply unwritten_of_files
      apply sameFiles_of_edit below edited
      rw [Dict.get?_insert, if_neg notDraft]
  · obtain ⟨-, q, children, d', rfl, below, edited⟩ := writeDocument_ok proper outcome
    apply unwritten_of_files
    exact sameFiles_of_edit below edited (get?_replaced other notDraft)

def Inspects (x : StateM Store α) : Prop := ∀ s, Unwritten s (x s).2

theorem inspects_of_recaches {x : StateM Store α} (recaches : Recaches x) : Inspects x := fun s =>
  unwritten_of_recached (recaches s)

theorem inspects_pure (a : α) : Inspects (pure a) := inspects_of_recaches (recaches_pure a)

theorem inspects_bind {x : StateM Store α} {f : α → StateM Store β} (first : Inspects x)
    (rest : ∀ a, Inspects (f a)) : Inspects (x >>= f) := fun s =>
  unwritten_trans (first s) (rest (x s).1 (x s).2)

theorem inspects_putIndex (shards : List Shard) (entries : List EntryPoint) :
    Inspects (putIndex shards entries) := by
  intro s
  have written := unwritten_writeDocument proper_indexName (by decide) (by decide)
    (GraphIndex.ofShards formatVersion s.now s.topN shards entries).toJson s
  rw [putIndex, indexPath_eq]
  rcases outcome : s.writeDocument (Path.join s.root indexName.text)
    (GraphIndex.ofShards formatVersion s.now s.topN shards entries).toJson with ⟨_ | _, last⟩
  · rwa [outcome] at written
  · rwa [outcome] at written

theorem inspects_putEntryPoints (entries : List EntryPoint) :
    Inspects (putEntryPoints entries) := by
  intro s
  have written := unwritten_writeDocument proper_entryPointsName (by decide) (by decide)
    (EntryPointList.toJson ⟨formatVersion, s.now, entries⟩) s
  rw [putEntryPoints, entryPointsPath_eq]
  rcases outcome : s.writeDocument (Path.join s.root entryPointsName.text)
    (EntryPointList.toJson ⟨formatVersion, s.now, entries⟩) with ⟨_ | _, last⟩
  · rwa [outcome] at written
  · rwa [outcome] at written

theorem inspects_buildIndex : Inspects buildIndex := by
  apply inspects_bind (inspects_of_recaches recaches_sweep)
  intro outcome
  cases outcome with
  | error e => exact inspects_pure _
  | ok shards => exact inspects_putIndex shards _

theorem inspects_buildEntryPoints : Inspects buildEntryPoints := by
  apply inspects_bind (inspects_of_recaches recaches_sweep)
  intro outcome
  cases outcome with
  | error e => exact inspects_pure _
  | ok shards => exact inspects_putEntryPoints _

theorem inspects_buildDerived : Inspects buildDerived := by
  apply inspects_bind (inspects_of_recaches recaches_sweep)
  intro outcome
  cases outcome with
  | error e => exact inspects_pure _
  | ok shards =>
    apply inspects_bind (inspects_putIndex shards _)
    intro outcome
    cases outcome with
    | error e => exact inspects_pure _
    | ok index =>
      apply inspects_bind (inspects_putEntryPoints _)
      intro outcome
      cases outcome <;> exact inspects_pure _

theorem shown_of_unwritten (unwritten : Unwritten s t) {k : String} (plain : '/' ∉ k.toList) :
    t.shown k = s.shown k ∨ t.shown k = s.readShard k := by
  rw [shown]
  cases cached : t.cache.shards.get? k with
  | none => exact .inr (unwritten.files.read k plain)
  | some shard =>
    rcases unwritten.kept k shard plain cached with old | read
    · exact .inl (by rw [shown, old]; rfl)
    · exact .inr read.symm

end DataReach.Store
