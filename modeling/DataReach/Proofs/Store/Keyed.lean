import DataReach.Proofs.Store.Reached
import DataReach.Proofs.Store.Script
/-!
Stores in which every shard that can be read has the key under which it is listed. Saving a shard
keeps that, and so does a save that fails, wherever it fails; so it is true of every state that a
store can come to.
-/

namespace DataReach

namespace Pass

def Rekeys {α : Type} (p : Pass α) : Prop :=
  ∀ shard new, p.change shard = some new → new.key = shard.key

theorem rekeys_resolving (index : NameIndex) : (resolving index).Rekeys := by
  intro shard new changed
  have kept := (resolving_keeps index shard).2
  rwa [apply_eq changed] at kept

theorem rekeys_givingCallers (m : CallerMap) : (givingCallers m).Rekeys := by
  intro shard new changed
  rw [← apply_eq changed, givingCallers_apply]
  rfl

end Pass

namespace Store

variable {s t : Store} {ks : List String}

/-- These keys are listed, each once and in order, and whatever can be read under one has that
key. -/
structure Keyed (s : Store) (ks : List String) : Prop where
  listed : s.keys = .ok ks
  ascending : ks.Pairwise (· < ·)
  own : ∀ k ∈ ks, ∀ shard, s.readShard k = some shard → shard.key = k

theorem Keyed.once (keyed : Keyed s ks) : ks.Nodup :=
  keyed.ascending.imp fun less => String.ne_of_lt less

theorem Keyed.plain (keyed : Keyed s ks) {k : String} (member : k ∈ ks) : '/' ∉ k.toList :=
  plain_of_listed keyed.listed k member

theorem keyed_of_files (keyed : Keyed s ks) (files : SameFiles s t) : Keyed t ks where
  listed := files.keys.trans keyed.listed
  ascending := keyed.ascending
  own := by
    intro k member shard read
    rw [files.read k (keyed.plain member)] at read
    exact keyed.own k member shard read

theorem readShard_cache (s : Store) (cache : Cache) (k : String) :
    ({ s with cache } : Store).readShard k = s.readShard k := rfl

theorem keyed_cache (keyed : Keyed s ks) (cache : Cache) : Keyed { s with cache } ks :=
  ⟨keyed.listed, keyed.ascending, keyed.own⟩

theorem keyed_recached (keyed : Keyed s ks) (recached : Recached s t) : Keyed t ks :=
  keyed_of_files keyed (unwritten_of_recached recached).files

/-! ### Failing to save -/

theorem spoiled_cases {shard : Shard} (spoiled : Spoiled shard s t) :
    t = s ∨ ∃ q children x c, Opened s q children ∧
      t = { s with disk := s.disk.put (q ++ [filesName] ++ [draftName x]) (.file c) } ∧
      Disk.Edited s.disk t.disk (q ++ [filesName]) children
        (children.insert (draftName x) (.file c)) := by
  rcases spoiled with rfl | ⟨c, disk, written, rfl⟩
  · exact .inl rfl
  · have plain : '/' ∉ shard.key.toList := plain_shardKey shard.file
    have draft : shardPath s.root shard.key ++ ".tmp" =
        Path.join (filesDir s.root) (draftName (docName shard.key plain)).text := by
      rw [shardPath_eq s.root plain]
      exact Path.join_append _ rfl
    rw [draft] at written
    obtain ⟨-, place, below, free, rfl⟩ := (Disk.write_join (proper_draftName _)).mp written
    obtain ⟨q, children, opened, rfl⟩ := descends_filesDir.mp below
    exact .inr ⟨q, children, _, c, opened, rfl, Disk.edited_put opened.held free c⟩

theorem spoiled_files {shard : Shard} (spoiled : Spoiled shard s t) :
    SameFiles s t ∧ ∃ disk, t = { s with disk } := by
  rcases spoiled_cases spoiled with rfl | ⟨q, children, x, c, opened, rfl, edited⟩
  · exact ⟨⟨rfl, fun _ _ => rfl⟩, t.disk, rfl⟩
  · have inside := descends_filesDir.mpr ⟨q, children, opened, rfl⟩
    exact ⟨sameFiles_of_draft inside edited, _, rfl⟩

theorem keyed_spoiled (keyed : Keyed s ks) {shard : Shard} (spoiled : Spoiled shard s t) :
    Keyed t ks :=
  keyed_of_files keyed (spoiled_files spoiled).1

/-! ### Saving -/

theorem save_keyed (keyed : Keyed s ks) {shard : Shard} {key : String}
    (saved : save shard s = (.ok key, t)) :
    (∃ ks', Keyed t ks' ∧ ∀ k, k ∈ ks' ↔ k = shard.key ∨ k ∈ ks) ∧
      t.readShard shard.key = shard.reread? ∧
      (∀ k, '/' ∉ k.toList → k ≠ shard.key → t.readShard k = s.readShard k) ∧
      ∃ disk, t = { s with disk, cache := s.cache.insert shard.key shard } := by
  obtain ⟨written, wrote, rfl⟩ := save_ok saved
  obtain ⟨⟨ks', listed, ascending, members⟩, readOwn, readOthers, disk, rfl⟩ :=
    files_written keyed.listed keyed.ascending wrote
  have keyed' : Keyed { s with disk } ks' := by
    refine ⟨listed, ascending, fun k inside found read => ?_⟩
    by_cases own : k = shard.key
    · rw [own, readOwn] at read
      exact (Shard.key_reread read).trans own.symm
    · have old := ((members k).mp inside).resolve_left own
      rw [readOthers k (keyed.plain old) own] at read
      exact keyed.own k old found read
  exact ⟨⟨ks', keyed_cache keyed' _, members⟩, (readShard_cache ..).trans readOwn,
    fun k plain other => (readShard_cache ..).trans (readOthers k plain other), disk, rfl⟩

theorem save_listed (keyed : Keyed s ks) {shard : Shard} (member : shard.key ∈ ks) {key : String}
    (saved : save shard s = (.ok key, t)) :
    Keyed t ks ∧ t.readShard shard.key = shard.reread? ∧
      (∀ k, '/' ∉ k.toList → k ≠ shard.key → t.readShard k = s.readShard k) ∧
      ∃ disk, t = { s with disk, cache := s.cache.insert shard.key shard } := by
  obtain ⟨⟨ks', keyed', members⟩, written⟩ := save_keyed keyed saved
  have same : ks' = ks := by
    apply keyed'.ascending.eq_of_mem_iff keyed.ascending
    intro k
    rw [members]
    constructor
    · rintro (rfl | old)
      · exact member
      · exact old
    · exact .inr
  exact ⟨same ▸ keyed', written⟩

/-! ### All states -/

theorem keyed_save (keyed : Keyed s ks) (shard : Shard) : ∃ ks', Keyed (save shard s).2 ks' := by
  rcases outcome : save shard s with ⟨e | key, t⟩
  · exact ⟨ks, keyed_spoiled keyed (spoiled_of_save outcome)⟩
  · obtain ⟨⟨ks', keyed', -⟩, -⟩ := save_keyed keyed outcome
    exact ⟨ks', keyed'⟩

theorem keyed_delete (keyed : Keyed s ks) {key : String} (plain : '/' ∉ key.toList) :
    ∃ ks', Keyed (delete key s).2 ks' := by
  have evicted : Keyed (evict key s).2 ks := keyed_recached keyed (recaches_evict key s)
  change ∃ ks', Keyed ((evict key s).2.removeFile (shardPath (evict key s).2.root key)).2 ks'
  rcases removeFile_cases plain (evict key s).2 with same | ⟨q, children, d', opened, same, edited⟩
  · rw [same]
    exact ⟨ks, evicted⟩
  · rw [same]
    obtain ⟨⟨ks', listed, ascending, members⟩, readOthers⟩ :=
      files_erased opened evicted.listed evicted.ascending edited
    refine ⟨ks', listed, ascending, fun k inside found read => ?_⟩
    obtain ⟨other, old⟩ := (members k).mp inside
    rw [readOthers k (evicted.plain old) other] at read
    exact evicted.own k old found read

theorem keyed_deleteEach (keyed : Keyed s ks) {keys : List String}
    (plain : ∀ k ∈ keys, '/' ∉ k.toList) : ∃ ks', Keyed (deleteEach keys s).2 ks' := by
  induction keys generalizing s ks with
  | nil => exact ⟨ks, keyed⟩
  | cons key rest ih =>
    obtain ⟨fewer, first⟩ := keyed_delete keyed (plain key (List.mem_cons_self ..))
    rw [deleteEach, run_bind]
    rcases outcome : delete key s with ⟨e | gone, t⟩
    · rw [outcome] at first
      exact ⟨fewer, first⟩
    · rw [outcome] at first
      exact ih first fun k later => plain k (List.mem_cons_of_mem key later)

theorem keyed_clear (keyed : Keyed s ks) : ∃ ks', Keyed (clear s).2 ks' := by
  obtain ⟨fewer, deleted⟩ := keyed_deleteEach keyed (plain_of_listed keyed.listed)
  have root := (steady_deleteEach ks s).1
  rw [clear, run_bind, run_get]
  simp only [keyed.listed, run_bind]
  rcases first : deleteEach ks s with ⟨e | _, t⟩
  · rw [first] at deleted
    exact ⟨fewer, deleted⟩
  · rw [first] at deleted root
    have beside : ∀ x ∈ [indexName, entryPointsName], x.Proper ∧ filesName ≠ x := by
      intro x member
      rcases List.mem_pair.mp member with rfl | rfl
      · exact ⟨proper_indexName, by decide⟩
      · exact ⟨proper_entryPointsName, by decide⟩
    have removed := keyed_of_files deleted (unwritten_removeEach root beside).files
    simp only [run_bind]
    change Keyed (removeEach [indexPath s.root, entryPointsPath s.root] t).2 fewer at removed
    rcases second : removeEach [indexPath s.root, entryPointsPath s.root] t with ⟨e | _, u⟩
    · rw [second] at removed
      exact ⟨fewer, removed⟩
    · rw [second] at removed
      exact ⟨fewer, keyed_recached removed (recaches_evictAll u)⟩

theorem keyed_request {P : Shard → Prop} {r : Request} (admitted : r.Admitted P)
    (keyed : Keyed s ks) : ∃ ks', Keyed (r.on s).2 ks' := by
  cases r with
  | save shard =>
    simp only [Request.on, run_bind, run_pure]
    exact keyed_save keyed shard
  | delete key =>
    simp only [Request.on, run_bind, run_pure]
    exact keyed_delete keyed admitted
  | clear =>
    simp only [Request.on, run_bind, run_pure]
    exact keyed_clear keyed
  | _ => exact ⟨ks, keyed_of_files keyed (inspects_request rfl s).files⟩

theorem reached_keyed {P : Shard → Prop} (reached : Reached P s) : ∃ ks, Keyed s ks := by
  induction reached with
  | fresh listed _ => exact ⟨[], listed, .nil, fun _ member => nomatch member⟩
  | request r admitted _ ih =>
    obtain ⟨ks, keyed⟩ := ih
    exact keyed_request admitted keyed
  | consults consults _ ih =>
    obtain ⟨ks, keyed⟩ := ih
    exact ⟨ks, keyed_of_files keyed (unwritten_of_consults consults).files⟩
  | opened capacity topN _ ih =>
    obtain ⟨ks, listed, ascending, own⟩ := ih
    exact ⟨ks, listed, ascending, own⟩

/-- A store with three shards, two of them still to be resolved, and nothing in the cache. -/
def coldStore : Store := (Request.evictAll.on staleStore).2

theorem coldStore_reached : Reached (fun _ => True) coldStore := by
  have fresh : Reached (fun _ => True) blankStore := .fresh (by decide +kernel) rfl
  have saves : ∀ shard s, Reached (fun _ => True) s → Reached (fun _ => True) (save shard s).2 := by
    intro shard s reached
    have saved : ((Request.save shard).on s).2 = (save shard s).2 := by
      rw [Request.on]
      generalize save shard = action
      rfl
    exact saved ▸ .request (.save shard) trivial reached
  have stale : Reached (fun _ => True) staleStore := by
    unfold staleStore
    exact saves _ _ (saves _ _ (saves _ _ fresh))
  exact .request .evictAll trivial stale

end Store

end DataReach
