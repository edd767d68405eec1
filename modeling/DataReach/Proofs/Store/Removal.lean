import DataReach.Proofs.Store.Holds
/-!
Shards that are not there: what is read and loaded for a key that is not listed, and the map that a
store holds once a shard was deleted.
-/

namespace DataReach.Store

variable {s s' : Store} {m v : String → Option Shard} {ks : List String} {key : String}

theorem readShard_unlisted (listed : s.keys = .ok ks) (plain : '/' ∉ key.toList) (some : key ≠ "")
    (absent : key ∉ ks) : s.readShard key = none := by
  have unread : ∀ c, s.disk.read (shardPath s.root key) ≠ .ok c := by
    intro c found
    apply absent
    rw [shardPath_eq s.root plain] at found
    rcases (Disk.read_join (proper_docName plain)).mp found with ⟨-, there, inside, held⟩
    rcases descends_filesDir.mp inside with ⟨q, children, opened, rfl⟩
    rw [Disk.at?_child opened.held] at held
    rw [(keys_opened opened listed).2, List.mem_mergeSort, mem_docKeys]
    exact ⟨plain, some, List.mem_map_of_mem (Dict.mem_of_get? held)⟩
  rw [readShard, readDocument]
  cases found : s.disk.read (shardPath s.root key) with
  | ok c => exact absurd found (unread c)
  | error e => rfl

theorem load_shown (shows : Shows s m v) (plain : '/' ∉ key.toList) (some : key ≠ "") :
    ∃ cache, load key s = (v key, { s with cache }) ∧ Shows { s with cache } m v := by
  by_cases stored : m key = none
  · have unseen : v key = none := shows.within key stored
    have uncached : s.cache.shards.get? key = none := by
      have seen := shows.seen key
      rw [stored, unseen, Option.or_none] at seen
      exact seen
    have unread : s.readShard key = none := by
      rcases shows.listed with ⟨ks, listed, -, members⟩
      apply readShard_unlisted listed plain some
      rw [members]
      exact fun present => present stored
    refine ⟨{ s.cache with misses := s.cache.misses + 1 }, ?_, ?_⟩
    · rw [load, Cache.find, uncached]
      simp only [unread, unseen]
    · exact shows_cache shows.toStored ⟨shows.seen, shows.within, shows.idle⟩
  · exact load_shows shows stored

theorem evictAll_holds (holds : Holds s m) : Holds (evictAll s).2 m :=
  shows_cache holds.toStored ⟨fun _ => rfl, holds.within, fun _ => rfl⟩

theorem holds_fresh (listed : s.keys = .ok []) (uncached : s.cache.shards = []) :
    Holds s fun _ => none := by
  refine ⟨⟨⟨[], listed, .nil, by simp⟩, nofun, nofun⟩, fun k => ?_, fun _ _ => rfl,
    fun _ => uncached⟩
  rw [uncached]
  rfl

/-! ### Deleting -/

section Delete

variable {q : Place} {children : Dict FileName DiskEntry} {plain : '/' ∉ key.toList}

theorem mem_docKeys_erase {k : String} :
    k ∈ docKeys (children.erase (docName key plain)) ↔ k ≠ key ∧ k ∈ docKeys children := by
  simp only [mem_docKeys, keys_erase, List.mem_filter, decide_eq_true_eq]
  constructor
  · intro given
    rcases given with ⟨plainK, some, member, other⟩
    refine ⟨?_, plainK, some, member⟩
    rintro rfl
    exact other rfl
  · intro given
    rcases given with ⟨other, plainK, some, member⟩
    exact ⟨plainK, some, member, fun same => other (docName_inj same)⟩

theorem files_erased (opened : Opened s q children) (listed : s.keys = .ok ks)
    (ascending : ks.Pairwise (· < ·)) {d' : Disk}
    (edited : Disk.Edited s.disk d' (q ++ [filesName]) children
      (children.erase (docName key plain))) :
    (∃ ks', ({ s with disk := d' } : Store).keys = .ok ks' ∧ ks'.Pairwise (· < ·) ∧
        ∀ k, k ∈ ks' ↔ k ≠ key ∧ k ∈ ks) ∧
      ∀ k, '/' ∉ k.toList → k ≠ key →
        ({ s with disk := d' } : Store).readShard k = s.readShard k := by
  have opened' : Opened { s with disk := d' } q (children.erase (docName key plain)) :=
    ⟨(Disk.descends_congr edited.directories).mpr opened.below, edited.holds⟩
  constructor
  · rcases keys_opened opened listed with ⟨passable, same⟩
    have once : (docKeys children).Nodup := by
      have sorted : ks.Nodup := ascending.imp fun less => String.ne_of_lt less
      rw [same] at sorted
      exact (List.mergeSort_perm _ _).nodup_iff.mp sorted
    have fewer := once.sublist (docKeys_erase_sublist children (docName key plain))
    refine ⟨_, keys_of_opened opened' passable,
      mergeSort_ascending id _ (by simpa using fewer), fun k => ?_⟩
    rw [List.mem_mergeSort, mem_docKeys_erase, same, List.mem_mergeSort]
  · intro k plainK other
    refine readShard_congr fun c => ?_
    have inside := descends_filesDir.mpr ⟨q, children, opened, rfl⟩
    simp only [shardPath_eq _ plainK, Disk.read_join (proper_docName plainK),
      Disk.descends_congr edited.directories]
    refine and_congr_right fun _ => exists_congr fun there => and_congr_right fun below => ?_
    obtain rfl := Disk.descends_unique inside below
    rw [Disk.at?_child edited.holds, Disk.at?_child edited.held, Dict.get?_erase,
      if_neg fun same => other (docName_inj same)]

theorem stored_erased (stored : Stored s m) (opened : Opened s q children) {d' : Disk}
    (edited : Disk.Edited s.disk d' (q ++ [filesName]) children
      (children.erase (docName key plain))) :
    Stored { s with disk := d' } (Function.update m key none) := by
  have others : ∀ k shard, Function.update m key none k = some shard →
      k ≠ key ∧ m k = some shard := by
    intro k shard found
    by_cases same : k = key
    · rw [same, Function.update_self] at found
      cases found
    · rw [Function.update_of_ne same] at found
      exact ⟨same, found⟩
  rcases stored.listed with ⟨ks, listed, ascending, members⟩
  rcases files_erased opened listed ascending edited with ⟨⟨ks', listed', sorted, mem⟩, read⟩
  refine ⟨⟨ks', listed', sorted, fun k => ?_⟩, ?_, ?_⟩
  · rw [mem, members]
    by_cases own : k = key
    · simp [own]
    · simp [own]
  · intro k shard found
    rcases others k shard found with ⟨other, old⟩
    exact (read k (plain_of_stored stored old) other).trans (stored.read k shard old)
  · intro k shard found
    exact stored.keyed k shard (others k shard found).2

theorem covers_deleted {cache : Cache} (covers : Covers cache m m) (key : String) :
    Covers (cache.evict key) (Function.update m key none) (Function.update m key none) := by
  refine ⟨fun k => ?_, fun _ absent => absent, fun zero => ?_⟩
  · rw [Cache.evict, Dict.get?_erase]
    by_cases same : k = key
    · rw [if_pos same, same, Function.update_self]
      rfl
    · rw [if_neg same, Function.update_of_ne same]
      exact covers.seen k
  · simp [Cache.evict, Dict.erase, covers.idle zero]

theorem removeFile_opened (opened : Opened s q children) {gone : Bool}
    (removed : s.removeFile (shardPath s.root key) = (.ok gone, s')) :
    gone = (children.get? (docName key plain)).isSome ∧ ∃ d', s' = { s with disk := d' } ∧
      Disk.Edited s.disk d' (q ++ [filesName]) children (children.erase (docName key plain)) := by
  have inside := descends_filesDir.mpr ⟨q, children, opened, rfl⟩
  rw [shardPath_eq s.root plain] at removed
  rcases removeFile_ok (proper_docName plain) inside removed with ⟨own, d', rfl, edited⟩
  obtain rfl : own = children := by
    have held := opened.held
    rw [edited.held] at held
    cases held
    rfl
  refine ⟨?_, d', rfl, edited⟩
  rw [removeFile] at removed
  rw [← Disk.at?_child edited.held]
  cases outcome : s.disk.removeFile (Path.join (filesDir s.root) (docName key plain).text) with
  | ok disk =>
    rw [outcome] at removed
    cases congrArg Prod.fst removed
    rcases Except.bind_eq_ok.mp outcome with ⟨⟨p, e⟩, located, -⟩
    rcases (Disk.find_join (proper_docName plain)).mp located with ⟨-, there, below, rfl, held⟩
    obtain rfl := Disk.descends_unique inside below
    rw [held]
    rfl
  | error e =>
    rw [outcome] at removed
    cases e <;> cases congrArg Prod.fst removed
    rw [Disk.at?_of_removeFile (proper_docName plain) inside outcome]
    rfl

theorem delete_holds (holds : Holds s m) (plain : '/' ∉ key.toList) (some : key ≠ "") {gone : Bool}
    (deleted : delete key s = (.ok gone, s')) :
    gone = (m key).isSome ∧ Holds s' (Function.update m key none) := by
  rcases holds.listed with ⟨ks, listed, -, members⟩
  rw [delete, run_bind] at deleted
  have evicted : Stored { s with cache := s.cache.evict key } m :=
    ⟨holds.listed, holds.read, holds.keyed⟩
  have covers := covers_deleted holds.toCovers key
  rcases keys_cases listed with ⟨q, children, opened, -, same⟩ | ⟨rfl, missing⟩
  · have opened' : Opened { s with cache := s.cache.evict key } q children :=
      ⟨opened.below, opened.held⟩
    rcases @removeFile_opened _ _ _ _ _ plain opened' _ deleted with ⟨was, d', rfl, edited⟩
    refine ⟨?_, shows_cache (stored_erased evicted opened' edited) covers⟩
    have present : (children.get? (docName key plain)).isSome = true ↔ (m key).isSome = true := by
      rw [Option.isSome_iff_ne_none, Option.isSome_iff_ne_none, ← members, same, List.mem_mergeSort,
        mem_docKeys, Ne, Dict.get?_eq_none_iff, not_not]
      constructor
      · exact fun member => ⟨plain, some, member⟩
      · rintro ⟨_, _, member⟩
        exact member
    rw [was]
    exact Bool.eq_iff_iff.mpr present
  · -- There is no directory, so there are no shards and no file to remove.
    have none : m key = none := by simpa using members key
    have unchanged : Function.update m key Option.none = m := by
      rw [← none, Function.update_eq_self]
    have absent : ∀ d', s.disk.removeFile (shardPath s.root key) ≠ .ok d' := by
      intro d' outcome
      rcases Except.bind_eq_ok.mp outcome with ⟨⟨p, e⟩, located, -⟩
      rw [shardPath_eq s.root plain] at located
      rcases (Disk.find_join (proper_docName plain)).mp located with ⟨-, there, below, -⟩
      rcases descends_filesDir.mp below with ⟨q, children, opened, -⟩
      have held := Disk.at?_of_find proper_filesName opened.below missing
      rw [opened.held] at held
      cases held
    change removeFile { s with cache := s.cache.evict key } (shardPath s.root key) = _ at deleted
    rw [removeFile] at deleted
    rw [unchanged] at covers ⊢
    cases outcome : s.disk.removeFile (shardPath s.root key) with
    | ok disk => exact absurd outcome (absent disk)
    | error e =>
      simp only [outcome] at deleted
      cases e <;> cases deleted
      exact ⟨by rw [none]; rfl, shows_cache holds.toStored covers⟩

end Delete

theorem clear_count {n : Nat} (listed : s.keys = .ok ks) (cleared : clear s = (.ok n, s')) :
    n = ks.length := by
  rw [clear, run_bind, run_get] at cleared
  simp only [listed] at cleared
  rw [run_bind] at cleared
  rcases first : deleteEach ks s with ⟨_ | ⟨⟩, between⟩
  · rw [first] at cleared
    cases cleared
  · rw [first] at cleared
    simp only [run_bind] at cleared
    rcases second : removeEach [indexPath s.root, entryPointsPath s.root] between with
      ⟨_ | ⟨⟩, last⟩
    · rw [second] at cleared
      cases cleared
    · rw [second] at cleared
      cases cleared
      rfl

end DataReach.Store
