import DataReach.Proofs.Convergence
import DataReach.Proofs.Store.Settings
import DataReach.Proofs.Store.Shown
/-!
The states that a store can come to, whether or not what is asked of it succeeds, and what holds in
all of them: every key is listed once, and what the cache keeps under the key of a document is
listed and goes with what the document says.
-/

namespace DataReach.Store

variable {s t : Store} {ks : List String} {key : String}

/-! ### States -/

/-- A request saves nothing but shards of a kind, and deletes what can be the key of a document. -/
def Request.Admitted (P : Shard → Prop) : Request → Prop
  | .save shard => P shard
  | .delete key => '/' ∉ key.toList
  | _ => True

/-- The states that follow from one by requests that change no file, by making the derived
documents, and by settings. -/
inductive Consults (s : Store) : Store → Prop
  | refl : Consults s s
  | request {t : Store} (r : Request) : r.writes = false → Consults s t → Consults s (r.on t).2
  | index {t : Store} : Consults s t → Consults s (buildIndex t).2
  | entryPoints {t : Store} : Consults s t → Consults s (buildEntryPoints t).2
  | derived {t : Store} : Consults s t → Consults s (buildDerived t).2
  | settings {t : Store} (batchSize now : Nat) : Consults s t →
    Consults s { t with batchSize, now }

/-- The states that a store without shards can come to. It may be opened anew at any time. -/
inductive Reached (P : Shard → Prop) : Store → Prop
  | fresh {s : Store} : s.keys = .ok [] → s.cache.shards = [] → Reached P s
  | request {s : Store} (r : Request) : r.Admitted P → Reached P s → Reached P (r.on s).2
  | consults {s t : Store} : Consults s t → Reached P s → Reached P t
  | opened {s : Store} (capacity topN : Nat) : Reached P s →
    Reached P { s with cache := { capacity }, topN }

/-- What the cache keeps under the key of a document is listed, and stands to what the document says
as a relation demands. -/
structure Coherent (R : Shard → Option Shard → Prop) (s : Store) : Prop where
  listed : ∃ ks, s.keys = .ok ks ∧ ks.Pairwise (· < ·) ∧
    ∀ k, '/' ∉ k.toList → k ≠ "" → s.cache.shards.get? k ≠ none → k ∈ ks
  kept : ∀ k shard, '/' ∉ k.toList → s.cache.shards.get? k = some shard → R shard (s.readShard k)
  idle : s.cache.capacity = 0 → s.cache.shards = []

/-! ### Actions that write no shard -/

theorem inspects_request {r : Request} (reads : r.writes = false) : Inspects r.on := by
  apply inspects_of_recaches
  cases r with
  | save shard => cases reads
  | load key => exact recaches_bind (recaches_load key) fun _ => recaches_pure _
  | loadPath file => exact recaches_bind (recaches_load _) fun _ => recaches_pure _
  | delete key => cases reads
  | evict key => exact recaches_bind (recaches_evict key) fun _ => recaches_pure _
  | evictAll => exact recaches_bind recaches_evictAll fun _ => recaches_pure _
  | clear => cases reads
  | list => exact recaches_bind recaches_get fun _ => recaches_pure _
  | sweep losses => exact recaches_bind (recaches_sweepLosing losses) fun _ => recaches_pure _

theorem unwritten_of_consults (consults : Consults s t) : Unwritten s t := by
  induction consults with
  | refl => exact unwritten_of_recached (recached_refl s)
  | request r reads _ ih => exact unwritten_trans ih (inspects_request reads _)
  | index _ ih => exact unwritten_trans ih (inspects_buildIndex _)
  | entryPoints _ ih => exact unwritten_trans ih (inspects_buildEntryPoints _)
  | derived _ ih => exact unwritten_trans ih (inspects_buildDerived _)
  | settings batchSize now _ ih =>
    exact unwritten_trans ih ⟨⟨rfl, fun _ _ => rfl⟩, rfl, rfl, fun _ _ _ old => .inl old, id⟩

section Coherent

variable {R : Shard → Option Shard → Prop} (own : ∀ shard, R shard (some shard))

theorem coherent_fresh (listed : s.keys = .ok []) (uncached : s.cache.shards = []) :
    Coherent R s where
  listed := by
    refine ⟨[], listed, .nil, fun k _ _ cached => ?_⟩
    rw [uncached] at cached
    exact absurd rfl cached
  kept := by
    intro k shard _ cached
    rw [uncached] at cached
    cases cached
  idle := fun _ => uncached

include own in
theorem coherent_unwritten (coherent : Coherent R s) (unwritten : Unwritten s t) :
    Coherent R t where
  listed := by
    obtain ⟨ks, listed, ascending, within⟩ := coherent.listed
    refine ⟨ks, unwritten.files.keys.trans listed, ascending, fun k plain some cached => ?_⟩
    obtain ⟨shard, found⟩ := Option.ne_none_iff_exists'.mp cached
    rcases unwritten.kept k shard plain found with old | read
    · exact within k plain some (old ▸ nofun)
    · by_contra absent
      rw [readShard_unlisted listed plain some absent] at read
      cases read
  kept := by
    intro k shard plain found
    rw [unwritten.files.read k plain]
    rcases unwritten.kept k shard plain found with old | read
    · exact coherent.kept k shard plain old
    · rw [read]
      exact own shard
  idle := unwritten.idle coherent.idle

/-! ### Saving -/

theorem sameFiles_of_draft {q : Place} {children : Dict FileName DiskEntry} {x : FileName}
    {e : DiskEntry} {d' : Disk}
    (inside : s.disk.Descends [] (Path.steps (filesDir s.root)) q)
    (edited : Disk.Edited s.disk d' q children (children.insert (draftName x) e)) :
    SameFiles s { s with disk := d' } := by
  obtain ⟨p, others, opened, rfl⟩ := descends_filesDir.mp inside
  obtain rfl : others = children := by
    have held := opened.held
    rw [edited.held] at held
    cases held
    rfl
  have opened' : Opened { s with disk := d' } p _ :=
    ⟨(Disk.descends_congr edited.directories).mpr opened.below, edited.holds⟩
  constructor
  · exact keys_congr opened opened' (docKeys_insert_draft ..)
  · intro k plain
    apply readShard_congr
    intro c
    simp only [shardPath_eq _ plain, Disk.read_join (proper_docName plain),
      Disk.descends_congr edited.directories]
    refine and_congr_right fun _ => exists_congr fun there => and_congr_right fun below => ?_
    obtain rfl := Disk.descends_unique inside below
    rw [Disk.at?_child edited.holds, Disk.at?_child edited.held, Dict.get?_insert,
      if_neg (docName_ne_draft plain x)]

theorem unwritten_of_save_failed (listed : s.keys = .ok ks) {shard : Shard} {e : StorageError}
    (failed : save shard s = (.error e, t)) : Unwritten s t := by
  have plain : '/' ∉ shard.key.toList := plain_shardKey shard.file
  unfold save at failed
  rcases outcome : s.writeDocument (shardPath s.root shard.key) (shardDocument shard) with
    ⟨_ | _, written⟩
  · simp only [outcome] at failed
    cases failed
    rw [shardPath_eq s.root plain] at outcome
    rcases writeDocument_failed outcome with rfl | ⟨q, children, d', rfl, inside, edited⟩
    · exact unwritten_of_recached (recached_refl _)
    · exact unwritten_of_files (sameFiles_of_draft inside edited)
  · simp only [outcome] at failed
    cases failed

theorem get?_saved {cache : Cache} (idle : cache.capacity = 0 → cache.shards = [])
    {shard kept : Shard} {k : String} (found : (cache.insert key shard).shards.get? k = some kept) :
    k = key ∧ kept = shard ∨ k ≠ key ∧ cache.shards.get? k = some kept := by
  rw [Cache.insert] at found
  split at found
  · next none =>
    rw [idle none] at found
    cases found
  · rw [Dict.get?_insert] at found
    split at found
    · next same => exact .inl ⟨same, (Option.some.inj found).symm⟩
    · next other => exact .inr ⟨other, found⟩

include own in
theorem coherent_save (coherent : Coherent R s) {shard : Shard} (goes : R shard shard.reread?) :
    Coherent R (save shard s).2 := by
  obtain ⟨ks, listed, ascending, within⟩ := coherent.listed
  rcases outcome : save shard s with ⟨e | saved, t⟩
  · exact coherent_unwritten own coherent (unwritten_of_save_failed listed outcome)
  · obtain ⟨written, wrote, rfl⟩ := save_ok outcome
    obtain ⟨⟨ks', listed', ascending', members⟩, readOwn, readOthers, disk, rfl⟩ :=
      files_written listed ascending wrote
    refine ⟨⟨ks', listed', ascending', fun k plain some cached => ?_⟩, fun k kept plain found => ?_,
      fun zero => ?_⟩
    · obtain ⟨kept, found⟩ := Option.ne_none_iff_exists'.mp cached
      rw [members]
      rcases get?_saved coherent.idle found with ⟨same, -⟩ | ⟨-, old⟩
      · exact .inl same
      · exact .inr (within k plain some (old ▸ nofun))
    · change R kept (Store.readShard { s with disk } k)
      rcases get?_saved coherent.idle found with ⟨same, rfl⟩ | ⟨other, old⟩
      · rwa [same, readOwn]
      · rw [readOthers k plain other]
        exact coherent.kept k kept plain old
    · simp only [Cache.insert] at zero ⊢
      split at zero
      · next none => rw [if_pos none]; exact coherent.idle none
      · next some => exact absurd zero some

/-! ### Deleting -/

theorem removeFile_cases (plain : '/' ∉ key.toList) (s : Store) :
    (s.removeFile (shardPath s.root key)).2 = s ∨ ∃ q children d', Opened s q children ∧
      (s.removeFile (shardPath s.root key)).2 = { s with disk := d' } ∧
      Disk.Edited s.disk d' (q ++ [filesName]) children (children.erase (docName key plain)) := by
  rw [removeFile]
  cases outcome : s.disk.removeFile (shardPath s.root key) with
  | error e => cases e <;> exact .inl rfl
  | ok disk =>
    rw [shardPath_eq s.root plain] at outcome
    obtain ⟨⟨p, e⟩, located, -⟩ := Except.bind_eq_ok.mp outcome
    obtain ⟨-, there, below, -⟩ := (Disk.find_join (proper_docName plain)).mp located
    obtain ⟨q, children, opened, rfl⟩ := descends_filesDir.mp below
    obtain ⟨free, rfl⟩ := Disk.removeFile_join (proper_docName plain) below outcome
    exact .inr ⟨q, children, _, opened, rfl, Disk.edited_drop opened.held free⟩

theorem coherent_removeFile (coherent : Coherent R s) (plain : '/' ∉ key.toList)
    (uncached : s.cache.shards.get? key = none) :
    Coherent R (s.removeFile (shardPath s.root key)).2 := by
  rcases removeFile_cases plain s with same | ⟨q, children, d', opened, same, edited⟩
  · rwa [same]
  · rw [same]
    obtain ⟨ks, listed, ascending, within⟩ := coherent.listed
    obtain ⟨⟨ks', listed', ascending', members⟩, readOthers⟩ :=
      files_erased opened listed ascending edited
    have other : ∀ k, s.cache.shards.get? k ≠ none → k ≠ key := by
      rintro k cached rfl
      exact cached uncached
    refine ⟨⟨ks', listed', ascending', fun k plainK some cached => ?_⟩,
      fun k kept plainK found => ?_, coherent.idle⟩
    · exact (members k).mpr ⟨other k cached, within k plainK some cached⟩
    · rw [readOthers k plainK (other k (found ▸ nofun))]
      exact coherent.kept k kept plainK found

include own in
theorem coherent_delete (coherent : Coherent R s) (plain : '/' ∉ key.toList) :
    Coherent R (delete key s).2 := by
  have evicted := coherent_unwritten own coherent
    (unwritten_of_recached (recaches_evict key s))
  have gone : (evict key s).2.cache.shards.get? key = none := by
    change (Dict.erase s.cache.shards key).get? key = none
    rw [Dict.get?_erase, if_pos rfl]
  exact coherent_removeFile evicted plain gone

include own in
theorem coherent_deleteEach (coherent : Coherent R s) {keys : List String}
    (plain : ∀ k ∈ keys, '/' ∉ k.toList) : Coherent R (deleteEach keys s).2 := by
  induction keys generalizing s with
  | nil => exact coherent
  | cons key rest ih =>
    have first := coherent_delete own coherent (plain key (List.mem_cons_self ..))
    rw [deleteEach, run_bind]
    rcases outcome : delete key s with ⟨e | gone, t⟩
    · rw [outcome] at first
      exact first
    · rw [outcome] at first
      exact ih first fun k later => plain k (List.mem_cons_of_mem key later)

theorem unwritten_removeFile {x : FileName} (proper : x.Proper) (other : filesName ≠ x)
    (s : Store) : Unwritten s (s.removeFile (Path.join s.root x.text)).2 := by
  rw [removeFile]
  cases outcome : s.disk.removeFile (Path.join s.root x.text) with
  | error e => cases e <;> exact unwritten_of_recached (recached_refl s)
  | ok disk =>
    obtain ⟨⟨p, e⟩, located, -⟩ := Except.bind_eq_ok.mp outcome
    obtain ⟨-, q, below, -⟩ := (Disk.find_join proper).mp located
    obtain ⟨free, rfl⟩ := Disk.removeFile_join proper below outcome
    obtain ⟨children, held⟩ := Disk.hasDirectory_iff.mp
      (Disk.hasDirectory_of_descends s.disk.hasDirectory_top below)
    apply unwritten_of_files
    apply sameFiles_of_edit below (Disk.edited_drop held free)
    rw [Dict.get?_erase, if_neg other]

theorem unwritten_removeEach {root : String} (same : s.root = root) {names : List FileName}
    (beside : ∀ x ∈ names, x.Proper ∧ filesName ≠ x) :
    Unwritten s (removeEach (names.map fun x => Path.join root x.text) s).2 := by
  induction names generalizing s with
  | nil => exact unwritten_of_recached (recached_refl s)
  | cons x rest ih =>
    obtain ⟨proper, other⟩ := beside x (List.mem_cons_self ..)
    have first := unwritten_removeFile proper other s
    rw [same] at first
    rw [List.map_cons, removeEach, run_bind]
    rcases outcome : s.removeFile (Path.join root x.text) with ⟨e | gone, t⟩
    · rw [outcome] at first
      exact first
    · rw [outcome] at first
      apply unwritten_trans first
      apply ih (first.root.trans same)
      exact fun y later => beside y (List.mem_cons_of_mem x later)

theorem plain_of_listed (listed : s.keys = .ok ks) : ∀ k ∈ ks, '/' ∉ k.toList := by
  intro k member
  rcases keys_cases listed with ⟨q, children, -, -, rfl⟩ | ⟨rfl, -⟩
  · rw [List.mem_mergeSort, mem_docKeys] at member
    exact member.1
  · cases member

include own in
theorem coherent_clear (coherent : Coherent R s) : Coherent R (clear s).2 := by
  obtain ⟨ks, listed, -, -⟩ := coherent.listed
  have deleted := coherent_deleteEach own coherent (plain_of_listed listed)
  have root := (steady_deleteEach ks s).1
  rw [clear, run_bind, run_get]
  simp only [listed, run_bind]
  rcases first : deleteEach ks s with ⟨e | _, t⟩
  · rw [first] at deleted
    exact deleted
  · rw [first] at deleted root
    have beside : ∀ x ∈ [indexName, entryPointsName], x.Proper ∧ filesName ≠ x := by
      intro x member
      rcases List.mem_pair.mp member with rfl | rfl
      · exact ⟨proper_indexName, by decide⟩
      · exact ⟨proper_entryPointsName, by decide⟩
    have removed := coherent_unwritten own deleted (unwritten_removeEach root beside)
    simp only [run_bind]
    change Coherent R (removeEach [indexPath s.root, entryPointsPath s.root] t).2 at removed
    rcases second : removeEach [indexPath s.root, entryPointsPath s.root] t with ⟨e | _, u⟩
    · rw [second] at removed
      exact removed
    · rw [second] at removed
      exact coherent_unwritten own removed (unwritten_of_recached (recaches_evictAll u))

/-! ### All states -/

include own in
theorem coherent_request {P : Shard → Prop} (goes : ∀ shard, P shard → R shard shard.reread?)
    {r : Request} (admitted : r.Admitted P) (coherent : Coherent R s) :
    Coherent R (r.on s).2 := by
  cases r with
  | save shard =>
    simp only [Request.on, run_bind, run_pure]
    exact coherent_save own coherent (goes shard admitted)
  | delete key =>
    simp only [Request.on, run_bind, run_pure]
    exact coherent_delete own coherent admitted
  | clear =>
    simp only [Request.on, run_bind, run_pure]
    exact coherent_clear own coherent
  | _ => exact coherent_unwritten own coherent (inspects_request rfl s)

include own in
theorem reached_coherent {P : Shard → Prop} (goes : ∀ shard, P shard → R shard shard.reread?)
    (reached : Reached P s) : Coherent R s := by
  induction reached with
  | fresh listed uncached => exact coherent_fresh listed uncached
  | request r admitted _ ih => exact coherent_request own goes admitted ih
  | consults consults _ ih => exact coherent_unwritten own ih (unwritten_of_consults consults)
  | opened capacity topN _ ih =>
    obtain ⟨ks, listed, ascending, -⟩ := ih.listed
    exact ⟨⟨ks, listed, ascending, fun _ _ _ cached => absurd rfl cached⟩,
      (fun _ _ _ found => nomatch found), fun _ => rfl⟩

end Coherent

/-- Where a document can be read, it differs from what is kept in confidences alone. -/
def Matches (kept : Shard) (read : Option Shard) : Prop :=
  ∀ shard, read = some shard → shard.plain = kept.plain

/-- A document can be read, and differs from what is kept in confidences alone. -/
def Agrees (kept : Shard) (read : Option Shard) : Prop := read.map Shard.plain = some kept.plain

theorem reached_matches {P : Shard → Prop} (reached : Reached P s) : Coherent Matches s := by
  apply reached_coherent _ _ reached
  · rintro shard _ ⟨⟩
    rfl
  · intro shard _ read reread
    exact Shard.plain_reread reread

/-- Shards whose confidences are all finite can be read again, so that the cache and the documents
agree. -/
theorem reached_agrees {P : Shard → Prop} (finite : ∀ shard, P shard → shard.Finite)
    (reached : Reached P s) : Coherent Agrees s := by
  apply reached_coherent _ _ reached
  · intro shard
    rfl
  · intro shard saved
    obtain ⟨read, reread⟩ := Shard.reread?_of_finite (finite shard saved)
    rw [Agrees, reread, Option.map_some, Shard.plain_reread reread]

end DataReach.Store
