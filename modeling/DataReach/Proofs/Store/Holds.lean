import DataReach.Proofs.Store.Files
/-!
A store as a plain map from keys to shards: which map it holds, and how loading, saving and visiting
all shards read and change that map. The cache never shows.
-/

namespace DataReach

section Keys

theorem digitChar_ne_slash (n : Nat) : Nat.digitChar n ≠ '/' := by
  by_cases small : n < 16
  · have all : ∀ n < 16, Nat.digitChar n ≠ '/' := by decide
    exact all n small
  · rw [Nat.digitChar_eq_star.mpr (Nat.le_of_not_lt small)]
    decide

theorem toDigitsCore_plain (fuel n : Nat) (digits : List Char) (plain : '/' ∉ digits) :
    '/' ∉ Nat.toDigitsCore 16 fuel n digits := by
  induction fuel generalizing n digits with
  | zero => exact plain
  | succ fuel ih =>
    have more : '/' ∉ Nat.digitChar (n % 16) :: digits := by
      simp [plain, Ne.symm (digitChar_ne_slash (n % 16))]
    rw [Nat.toDigitsCore]
    split
    · exact more
    · exact ih _ _ more

theorem plain_shardKey (path : String) : '/' ∉ (shardKey path).toList := by
  rw [shardKey]
  generalize Digest.xxh3 _ = x
  have digits := toDigitsCore_plain (x.toNat + 1) x.toNat [] (by simp)
  simp only [Digest.hex, String.toList_ofList, List.mem_append, List.mem_replicate]
  intro given
  rcases given with ⟨-, zero⟩ | digit
  · exact absurd zero (by decide)
  · exact digits digit

theorem shardKey_ne_empty (path : String) : shardKey path ≠ "" := by
  rw [shardKey]
  generalize Digest.xxh3 _ = x
  intro empty
  have chars := congrArg String.toList empty
  simp [Digest.hex] at chars

end Keys

def CallEdge.Legible (e : CallEdge) : Prop :=
  (Json.float e.confidence).reread.float? = some e.confidence

def Shard.Legible (s : Shard) : Prop :=
  ∀ f ∈ s.functions, ∀ e ∈ f.calls, e.Legible

theorem mapM_same {α : Type} {f : α → Option α} {xs : List α} (same : ∀ x ∈ xs, f x = some x) :
    xs.mapM f = some xs := by
  induction xs with
  | nil => rfl
  | cons x rest ih =>
    have here := same x (List.mem_cons_self ..)
    have others := ih fun y later => same y (List.mem_cons_of_mem x later)
    simp [List.mapM_cons, here, others]

theorem Shard.reread?_of_legible {s : Shard} (legible : s.Legible) : s.reread? = some s := by
  have functions : s.functions.mapM FunctionNode.reread? = some s.functions := by
    refine mapM_same fun f member => ?_
    have calls : f.calls.mapM CallEdge.reread? = some f.calls := by
      refine mapM_same fun e call => ?_
      have numeral : e.Legible := legible f member e call
      rw [CallEdge.Legible] at numeral
      simp [CallEdge.reread?, numeral]
    simp [FunctionNode.reread?, calls]
  simp [Shard.reread?, functions]

theorem Shard.key_reread {s read : Shard} (reread : s.reread? = some read) : read.key = s.key := by
  rcases Option.map_eq_some_iff.mp reread with ⟨functions, -, rfl⟩
  rfl

namespace Store

theorem run_bind {α β : Type} (x : StateM Store α) (f : α → StateM Store β) (s : Store) :
    (x >>= f) s = f (x s).1 (x s).2 := rfl

theorem run_pure {α : Type} (a : α) (s : Store) : (pure a : StateM Store α) s = (a, s) := rfl

theorem run_get (s : Store) : (get : StateM Store Store) s = (s, s) := rfl

/-- The map that the documents of a store make up. -/
structure Stored (s : Store) (m : String → Option Shard) : Prop where
  listed : ∃ ks, s.keys = .ok ks ∧ ks.Pairwise (· < ·) ∧ ∀ k, k ∈ ks ↔ m k ≠ none
  read : ∀ k shard, m k = some shard → s.readShard k = some shard
  keyed : ∀ k shard, m k = some shard → shard.key = k

/-- The map that a cache makes of another: what it keeps comes before what it does not. -/
structure Covers (cache : Cache) (m v : String → Option Shard) : Prop where
  seen : ∀ k, (cache.shards.get? k).or (m k) = v k
  within : ∀ k, m k = none → v k = none
  idle : cache.capacity = 0 → cache.shards = []

/-- The documents of a store make up one map, and loading gives another: a shard that was saved
stays in the cache as it was, with the confidences that its document may have changed. -/
structure Shows (s : Store) (m v : String → Option Shard) : Prop extends
  Stored s m, Covers s.cache m v

abbrev Holds (s : Store) (m : String → Option Shard) : Prop := Shows s m m

section Cache

variable {s : Store} {m v : String → Option Shard}

theorem shows_cache (stored : Stored s m) {cache : Cache} (covers : Covers cache m v) :
    Shows { s with cache } m v :=
  ⟨⟨stored.listed, stored.read, stored.keyed⟩, covers⟩

theorem covers_insert {cache : Cache} (covers : Covers cache m v) (key : String)
    (shard own : Shard) :
    ∃ kept, (kept = shard ∨ kept = own) ∧
      Covers (cache.insert key shard) (Function.update m key (some own))
        (Function.update v key (some kept)) := by
  have outside : ∀ kept k, Function.update m key (some own) k = none →
      Function.update v key (some kept) k = none := by
    intro kept k absent
    by_cases same : k = key
    · rw [same, Function.update_self] at absent
      cases absent
    · rw [Function.update_of_ne same] at absent ⊢
      exact covers.within k absent
  rw [Cache.insert]
  by_cases none : cache.capacity = 0
  · have empty := covers.idle none
    rw [if_pos none]
    refine ⟨own, .inr rfl, fun k => ?_, outside own, covers.idle⟩
    have before := covers.seen k
    rw [empty] at before ⊢
    by_cases same : k = key
    · rw [same, Function.update_self, Function.update_self]
      rfl
    · rw [Function.update_of_ne same, Function.update_of_ne same]
      exact before
  · rw [if_neg none]
    refine ⟨shard, .inl rfl, fun k => ?_, outside shard, fun zero => absurd zero none⟩
    rw [Dict.get?_insert]
    by_cases same : k = key
    · rw [if_pos same, Option.some_or, same, Function.update_self]
    · rw [if_neg same, Function.update_of_ne same, Function.update_of_ne same]
      exact covers.seen k

theorem load_shows (shows : Shows s m v) {key : String} (stored : m key ≠ none) :
    ∃ cache, load key s = (v key, { s with cache }) ∧ Shows { s with cache } m v := by
  have seen := shows.seen key
  rw [load, Cache.find]
  cases found : s.cache.shards.get? key with
  | some kept =>
    rw [found, Option.some_or] at seen
    rw [← seen]
    exact ⟨_, rfl, shows_cache shows.toStored ⟨shows.seen, shows.within, shows.idle⟩⟩
  | none =>
    rw [found, Option.none_or] at seen
    rcases Option.ne_none_iff_exists'.mp stored with ⟨shard, own⟩
    simp only [shows.read key shard own]
    rw [← seen, own]
    refine ⟨_, rfl, shows_cache shows.toStored ?_⟩
    have covers : Covers { s.cache with misses := s.cache.misses + 1 } m v :=
      ⟨shows.seen, shows.within, shows.idle⟩
    rcases covers_insert covers key shard shard with ⟨kept, same, more⟩
    rw [or_self] at same
    rwa [same, ← own, Function.update_eq_self, seen, Function.update_eq_self] at more

theorem evict_shows (shows : Shows s m v) (key : String) :
    ∃ cache, evict key s = ((), { s with cache }) ∧
      Shows { s with cache } m (Function.update v key (m key)) := by
  refine ⟨s.cache.evict key, rfl, shows_cache shows.toStored ⟨fun k => ?_, fun k absent => ?_, ?_⟩⟩
  · rw [Cache.evict, Dict.get?_erase]
    by_cases same : k = key
    · rw [if_pos same, same, Function.update_self, Option.none_or]
    · rw [if_neg same, Function.update_of_ne same]
      exact shows.seen k
  · by_cases same : k = key
    · rwa [same, Function.update_self, ← same]
    · rw [Function.update_of_ne same]
      exact shows.within k absent
  · intro zero
    simp [Cache.evict, Dict.erase, shows.idle zero]

theorem loadEach_shows (shows : Shows s m v) {keys : List String}
    (stored : ∀ k ∈ keys, m k ≠ none) :
    ∃ cache, loadEach keys s = (keys.filterMap v, { s with cache }) ∧
      Shows { s with cache } m v := by
  induction keys generalizing s with
  | nil => exact ⟨s.cache, rfl, shows⟩
  | cons key rest ih =>
    rcases load_shows shows (stored key (List.mem_cons_self ..)) with ⟨cache, loaded, kept⟩
    rcases ih kept fun k later => stored k (List.mem_cons_of_mem key later) with
      ⟨last, others, shown⟩
    refine ⟨last, ?_, shown⟩
    rw [loadEach, run_bind, loaded, run_bind, others, List.filterMap_cons]
    cases v key <;> rfl

def uncovered (m v : String → Option Shard) (keys : List String) : String → Option Shard :=
  fun k => if k ∈ keys then m k else v k

theorem uncovered_nil (m v : String → Option Shard) : uncovered m v [] = v := by
  funext k
  simp [uncovered]

theorem uncovered_append (m v : String → Option Shard) (front back : List String) :
    uncovered m (uncovered m v front) back = uncovered m v (front ++ back) := by
  funext k
  by_cases first : k ∈ front <;> by_cases second : k ∈ back <;> simp [uncovered, first, second]

theorem evictEach_shows (shows : Shows s m v) (keys : List String) :
    ∃ cache, evictEach keys s = ((), { s with cache }) ∧
      Shows { s with cache } m (uncovered m v keys) := by
  induction keys generalizing s v with
  | nil => exact ⟨s.cache, rfl, (uncovered_nil m v).symm ▸ shows⟩
  | cons key rest ih =>
    rcases evict_shows shows key with ⟨cache, evicted, kept⟩
    rcases ih kept with ⟨last, others, shown⟩
    have one : Function.update v key (m key) = uncovered m v [key] := by
      funext k
      by_cases same : k = key <;> simp [uncovered, same]
    rw [one, uncovered_append] at shown
    refine ⟨last, ?_, shown⟩
    rw [evictEach, run_bind, evicted, others]

theorem sweepBatches_shows (shows : Shows s m v) {batches : List (List String)}
    (stored : ∀ k ∈ batches.flatten, m k ≠ none) (once : batches.flatten.Nodup) :
    ∃ cache, sweepBatches batches s = (batches.flatten.filterMap v, { s with cache }) ∧
      Shows { s with cache } m (uncovered m v batches.flatten) := by
  induction batches generalizing s v with
  | nil => exact ⟨s.cache, rfl, (uncovered_nil m v).symm ▸ shows⟩
  | cons batch rest ih =>
    rw [List.flatten_cons] at stored once
    rcases loadEach_shows shows fun k member => stored k (List.mem_append_left _ member) with
      ⟨first, loaded, kept⟩
    rcases evictEach_shows kept batch with ⟨second, evicted, kept⟩
    rcases ih kept (fun k later => stored k (List.mem_append_right batch later))
      (List.nodup_append.mp once).2.1 with ⟨last, others, shown⟩
    -- No key of a later batch has left the cache yet.
    have later : rest.flatten.filterMap (uncovered m v batch) = rest.flatten.filterMap v := by
      apply List.filterMap_congr
      intro k member
      have fresh : k ∉ batch := fun before =>
        (List.nodup_append.mp once).2.2 k before k member rfl
      rw [uncovered, if_neg fresh]
    rw [uncovered_append] at shown
    refine ⟨last, ?_, shown⟩
    rw [sweepBatches, run_bind, loaded, run_bind, evicted, run_bind, others, later]
    simp [run_pure]

theorem flatten_chunks {α : Type} (n : Nat) (xs : List α) : (chunks n xs).flatten = xs := by
  induction xs using chunks.induct n with
  | case1 => simp [chunks]
  | case2 x rest ih =>
    rw [chunks, List.flatten_cons, ih]
    simp

/-- A visit of all shards gives what loading gives, and leaves nothing in the cache that differs from
the documents. -/
theorem sweep_shows (shows : Shows s m v) {ks : List String} (listed : s.keys = .ok ks) :
    ∃ cache, sweep s = (.ok (ks.filterMap v), { s with cache }) ∧ Holds { s with cache } m := by
  rcases shows.listed with ⟨all, same, ascending, members⟩
  rw [listed] at same
  cases same
  have stored : ∀ k ∈ (chunks s.batchSize ks).flatten, m k ≠ none := by
    rw [flatten_chunks]
    exact fun k member => (members k).mp member
  have once : (chunks s.batchSize ks).flatten.Nodup := by
    rw [flatten_chunks]
    exact ascending.imp fun less => String.ne_of_lt less
  rcases sweepBatches_shows shows stored once with ⟨cache, swept, shown⟩
  rw [flatten_chunks] at swept shown
  have all : uncovered m v ks = m := by
    funext k
    by_cases member : k ∈ ks
    · rw [uncovered, if_pos member]
    · have absent : m k = none := by simpa [members k] using member
      rw [uncovered, if_neg member, shows.within k absent, absent]
  rw [all] at shown
  refine ⟨cache, ?_, shown⟩
  rw [sweep, run_bind, run_get]
  simp only [listed]
  rw [run_bind, swept]
  rfl

theorem load_holds (holds : Holds s m) {key : String} {shard : Shard}
    (stored : m key = some shard) :
    ∃ cache, load key s = (some shard, { s with cache }) ∧ Holds { s with cache } m := by
  rw [← stored]
  exact load_shows holds (stored ▸ Option.some_ne_none shard)

theorem evict_holds (holds : Holds s m) (key : String) :
    ∃ cache, evict key s = ((), { s with cache }) ∧ Holds { s with cache } m := by
  have shown := evict_shows holds key
  rwa [Function.update_eq_self] at shown

end Cache

section Save

variable {s s' : Store} {m v : String → Option Shard}

theorem plain_of_stored (stored : Stored s m) {key : String} {shard : Shard}
    (found : m key = some shard) : '/' ∉ key.toList := by
  rw [← stored.keyed key shard found]
  exact plain_shardKey shard.file

theorem keys_of_stored {m' : String → Option Shard} (stored : Stored s m) (stored' : Stored s' m')
    (same : ∀ k, m' k ≠ none ↔ m k ≠ none) : s'.keys = s.keys := by
  rcases stored.listed with ⟨ks, listed, ascending, members⟩
  rcases stored'.listed with ⟨ks', listed', ascending', members'⟩
  have lists : ks' = ks := by
    apply ascending'.eq_of_mem_iff ascending
    intro k
    rw [members', members, same]
  rw [listed, listed', lists]

theorem listed_replaced {ks : List String} {children : Dict FileName DiskEntry} {key : String}
    {plain : '/' ∉ key.toList} (some : key ≠ "") (c : Content)
    (same : ks = (docKeys children).mergeSort fun a b => decide (a ≤ b))
    (ascending : ks.Pairwise (· < ·)) :
    let names := docKeys (Disk.replaced children (draftName (docName key plain))
      (docName key plain) c)
    (names.mergeSort fun a b => decide (a ≤ b)).Pairwise (· < ·) ∧
      ∀ k, k ∈ names.mergeSort (fun a b => decide (a ≤ b)) ↔ k = key ∨ k ∈ ks := by
  intro names
  have once : (docKeys children).Nodup := by
    have sorted : ks.Nodup := ascending.imp fun less => String.ne_of_lt less
    rw [same] at sorted
    exact (List.mergeSort_perm _ _).nodup_iff.mp sorted
  have fresh : names.Nodup := nodup_docKeys_replaced some c once
  constructor
  · exact mergeSort_ascending id names (by simpa using fresh)
  · intro k
    rw [List.mem_mergeSort, mem_docKeys_replaced some c, same, List.mem_mergeSort]

theorem save_ok {shard : Shard} {key : String} (saved : save shard s = (.ok key, s')) :
    ∃ written, s.writeDocument (shardPath s.root shard.key) (shardDocument shard) =
      (.ok (), written) ∧
        s' = { written with cache := written.cache.insert shard.key shard } := by
  unfold save at saved
  rcases outcome : s.writeDocument (shardPath s.root shard.key) (shardDocument shard) with
    ⟨result, written⟩
  simp only [outcome] at saved
  cases result with
  | error e => cases saved
  | ok done =>
    cases saved
    exact ⟨written, rfl, rfl⟩

theorem readShard_written {shard : Shard} {plain : '/' ∉ shard.key.toList} {d' : Disk} {q : Place}
    {children : Dict FileName DiskEntry} (opened : Opened s q children)
    (passable : Disk.Passable (filesDir s.root) (docName shard.key plain))
    (edited : Disk.Edited s.disk d' (q ++ [filesName]) children
      (Disk.replaced children (draftName (docName shard.key plain)) (docName shard.key plain)
        (.document (shardDocument shard).reread))) :
    ({ s with disk := d' } : Store).readShard shard.key = shard.reread? ∧
      ∀ k, '/' ∉ k.toList → k ≠ shard.key →
        ({ s with disk := d' } : Store).readShard k = s.readShard k := by
  have inside := descends_filesDir.mpr ⟨q, children, opened, rfl⟩
  have inside' := (Disk.descends_congr edited.directories).mpr inside
  constructor
  · have found : d'.read (shardPath s.root shard.key) =
        .ok (.document (shardDocument shard).reread) := by
      rw [shardPath_eq s.root plain]
      refine (Disk.read_join (proper_docName plain)).mpr ⟨passable, _, inside', ?_⟩
      rw [Disk.at?_child edited.holds, Disk.replaced, Dict.get?_insert, if_pos rfl]
    rw [readShard, readDocument, found]
    exact shardOfDocument?_reread shard
  · intro k plainK other
    refine readShard_congr fun c => ?_
    simp only [shardPath_eq _ plainK, Disk.read_join (proper_docName plainK),
      Disk.descends_congr edited.directories]
    refine and_congr_right fun _ => exists_congr fun there => and_congr_right fun below => ?_
    obtain rfl := Disk.descends_unique inside below
    rw [Disk.at?_child edited.holds, Disk.at?_child edited.held,
      get?_replaced (fun same => other (docName_inj same)) (docName_ne_draft plainK _)]

theorem update_cases {shard found : Shard} {key k : String}
    (stored : Function.update m key (some shard) k = some found) :
    k = key ∧ shard = found ∨ k ≠ key ∧ m k = some found := by
  by_cases same : k = key
  · rw [same, Function.update_self] at stored
    exact .inl ⟨same, Option.some.inj stored⟩
  · rw [Function.update_of_ne same] at stored
    exact .inr ⟨same, stored⟩

theorem files_written {shard : Shard} {ks : List String} (listed : s.keys = .ok ks)
    (ascending : ks.Pairwise (· < ·))
    (written : s.writeDocument (shardPath s.root shard.key) (shardDocument shard) = (.ok (), s')) :
    (∃ ks', s'.keys = .ok ks' ∧ ks'.Pairwise (· < ·) ∧ ∀ k, k ∈ ks' ↔ k = shard.key ∨ k ∈ ks) ∧
      s'.readShard shard.key = shard.reread? ∧
      (∀ k, '/' ∉ k.toList → k ≠ shard.key → s'.readShard k = s.readShard k) ∧
      ∃ disk, s' = { s with disk } := by
  have plain : '/' ∉ shard.key.toList := plain_shardKey shard.file
  have nonempty : shard.key ≠ "" := shardKey_ne_empty shard.file
  rw [shardPath_eq s.root plain] at written
  rcases writeDocument_ok (proper_docName plain) written with
    ⟨replaceable, there, children, d', rfl, inside, edited⟩
  rcases descends_filesDir.mp inside with ⟨q, own, opened, rfl⟩
  obtain rfl : own = children := by
    have held := opened.held
    rw [edited.held] at held
    cases held
    rfl
  have opened' : Opened { s with disk := d' } q _ :=
    ⟨(Disk.descends_congr edited.directories).mpr opened.below, edited.holds⟩
  rcases readShard_written opened replaceable.passable edited with ⟨readOwn, readOthers⟩
  rcases keys_opened opened listed with ⟨passableFiles, same⟩
  rcases listed_replaced nonempty _ same ascending with ⟨sorted, mem⟩
  exact ⟨⟨_, keys_of_opened opened' passableFiles, sorted, mem⟩, readOwn, readOthers, d', rfl⟩

theorem stored_written (stored : Stored s m) {shard read : Shard}
    (reread : shard.reread? = some read)
    (written : s.writeDocument (shardPath s.root shard.key) (shardDocument shard) = (.ok (), s')) :
    Stored s' (Function.update m shard.key (some read)) ∧ s'.cache = s.cache := by
  rcases stored.listed with ⟨ks, listed, ascending, members⟩
  rcases files_written listed ascending written with
    ⟨⟨ks', listed', sorted, mem⟩, readOwn, readOthers, disk, rfl⟩
  refine ⟨⟨⟨ks', listed', sorted, fun k => ?_⟩, ?_, ?_⟩, rfl⟩
  · rw [mem, members]
    by_cases own : k = shard.key
    · simp [own]
    · simp [own]
  · intro k found there
    rcases update_cases there with ⟨rfl, rfl⟩ | ⟨other, old⟩
    · exact readOwn.trans reread
    · exact (readOthers k (plain_of_stored stored old) other).trans (stored.read k found old)
  · intro k found there
    rcases update_cases there with ⟨rfl, rfl⟩ | ⟨-, old⟩
    · exact Shard.key_reread reread
    · exact stored.keyed k found old

theorem save_shows (shows : Shows s m v) {shard read : Shard} (reread : shard.reread? = some read)
    {key : String} (saved : save shard s = (.ok key, s')) :
    ∃ kept, (kept = shard ∨ kept = read) ∧
      Shows s' (Function.update m shard.key (some read))
        (Function.update v shard.key (some kept)) := by
  rcases save_ok saved with ⟨written, outcome, rfl⟩
  rcases stored_written shows.toStored reread outcome with ⟨stored, cache⟩
  rcases covers_insert shows.toCovers shard.key shard read with ⟨kept, which, covers⟩
  rw [cache]
  exact ⟨kept, which, shows_cache stored covers⟩

theorem save_holds (holds : Holds s m) {shard : Shard} (legible : shard.Legible) {key : String}
    (saved : save shard s = (.ok key, s')) :
    Holds s' (Function.update m shard.key (some shard)) := by
  rcases save_shows holds (Shard.reread?_of_legible legible) saved with ⟨kept, which, shown⟩
  rw [or_self] at which
  rwa [which] at shown

end Save

section Clear

variable {s s' : Store} {q : Place} {children : Dict FileName DiskEntry}

theorem delete_opened (opened : Opened s q children) {key : String} (plain : '/' ∉ key.toList)
    {gone : Bool} (deleted : delete key s = (.ok gone, s')) :
    ∃ rest, Opened s' q rest ∧ (docKeys rest).Sublist (docKeys children) ∧ key ∉ docKeys rest ∧
      s'.root = s.root := by
  rw [delete, run_bind] at deleted
  have evicted : Opened { s with cache := s.cache.evict key } q children :=
    ⟨opened.below, opened.held⟩
  have inside := descends_filesDir.mpr ⟨q, children, evicted, rfl⟩
  rcases removeFile_ok (proper_docName plain) inside deleted with ⟨own, d', rfl, edited⟩
  obtain rfl : own = children := by
    have held := opened.held
    rw [edited.held] at held
    cases held
    rfl
  refine ⟨_, ⟨(Disk.descends_congr edited.directories).mpr opened.below, edited.holds⟩,
    docKeys_erase_sublist _ _, ?_, rfl⟩
  rw [mem_docKeys]
  intro given
  rcases given with ⟨_, _, member⟩
  rw [keys_erase] at member
  simpa using (List.mem_filter.mp member).2

theorem deleteEach_opened (opened : Opened s q children) {keys : List String}
    (plain : ∀ k ∈ keys, '/' ∉ k.toList) (deleted : deleteEach keys s = (.ok (), s')) :
    ∃ rest, Opened s' q rest ∧ (docKeys rest).Sublist (docKeys children) ∧
      (∀ k ∈ keys, k ∉ docKeys rest) ∧ s'.root = s.root := by
  induction keys generalizing s children with
  | nil =>
    cases deleted
    exact ⟨children, opened, .refl _, (fun _ member => nomatch member), rfl⟩
  | cons key others ih =>
    rw [deleteEach, run_bind] at deleted
    cases first : delete key s with
    | mk outcome between =>
      rw [first] at deleted
      cases outcome with
      | error e => cases deleted
      | ok gone =>
        rcases delete_opened opened (plain key (List.mem_cons_self ..)) first with
          ⟨rest, opened', fewer, own, root⟩
        rcases ih opened' (fun k later => plain k (List.mem_cons_of_mem key later)) deleted with
          ⟨last, opened'', fewest, none, root'⟩
        refine ⟨last, opened'', fewest.trans fewer, ?_, root'.trans root⟩
        intro k member
        rcases List.mem_cons.mp member with rfl | later
        · exact fun kept => own (fewest.subset kept)
        · exact none k later

theorem removeFile_beside {x : FileName} (proper : x.Proper) (other : filesName ≠ x) {gone : Bool}
    (removed : s.removeFile (Path.join s.root x.text) = (.ok gone, s')) :
    SameFiles s s' ∧ s'.root = s.root := by
  cases outcome : s.disk.removeFile (Path.join s.root x.text) with
  | ok disk =>
    rcases Except.bind_eq_ok.mp outcome with ⟨⟨p, e⟩, located, -⟩
    rcases (Disk.find_join proper).mp located with ⟨-, q, below, -⟩
    rcases removeFile_ok proper below removed with ⟨children, d', rfl, edited⟩
    refine ⟨sameFiles_of_edit below edited ?_, rfl⟩
    rw [Dict.get?_erase, if_neg other]
  | error e =>
    rw [removeFile, outcome] at removed
    cases e <;> cases removed
    exact ⟨⟨rfl, fun _ _ => rfl⟩, rfl⟩

theorem removeEach_beside {root : String} (same : s.root = root) {names : List FileName}
    (beside : ∀ x ∈ names, x.Proper ∧ filesName ≠ x)
    (removed : removeEach (names.map fun x => Path.join root x.text) s = (.ok (), s')) :
    s'.keys = s.keys := by
  induction names generalizing s with
  | nil =>
    cases removed
    rfl
  | cons x others ih =>
    rw [List.map_cons, removeEach, run_bind] at removed
    cases first : s.removeFile (Path.join root x.text) with
    | mk outcome between =>
      rw [first] at removed
      cases outcome with
      | error e => cases removed
      | ok gone =>
        rw [← same] at first
        rcases beside x (List.mem_cons_self ..) with ⟨proper, other⟩
        rcases removeFile_beside proper other first with ⟨kept, root'⟩
        have rest := ih (root'.trans same) (fun y later => beside y (List.mem_cons_of_mem x later))
          removed
        exact rest.trans kept.keys

theorem proper_indexName : indexName.Proper := by
  simp [FileName.Proper, indexName]

theorem proper_entryPointsName : entryPointsName.Proper := by
  simp [FileName.Proper, entryPointsName]

theorem keys_deleted {ks : List String} (listed : s.keys = .ok ks)
    (deleted : deleteEach ks s = (.ok (), s')) : s'.keys = .ok [] ∧ s'.root = s.root := by
  rcases keys_cases listed with ⟨q, children, opened, passable, same⟩ | ⟨rfl, -⟩
  · have member : ∀ k, k ∈ ks ↔ k ∈ docKeys children := by
      intro k
      rw [same, List.mem_mergeSort]
    have plain : ∀ k ∈ ks, '/' ∉ k.toList := by
      intro k inside
      rcases mem_docKeys.mp ((member k).mp inside) with ⟨plain, -⟩
      exact plain
    rcases deleteEach_opened opened plain deleted with ⟨rest, opened', fewer, gone, root⟩
    have nothing : docKeys rest = [] := by
      apply List.eq_nil_iff_forall_not_mem.mpr
      intro k kept
      exact gone k ((member k).mpr (fewer.subset kept)) kept
    rw [← root] at passable
    rw [keys_of_opened opened' passable, nothing]
    exact ⟨by simp, root⟩
  · cases deleted
    exact ⟨listed, rfl⟩

theorem clear_holds {n : Nat} (cleared : clear s = (.ok n, s')) : Holds s' fun _ => none := by
  rw [clear, run_bind, run_get] at cleared
  cases listed : s.keys with
  | error e =>
    simp only [listed] at cleared
    cases cleared
  | ok ks =>
    simp only [listed] at cleared
    rw [run_bind] at cleared
    cases first : deleteEach ks s with
    | mk outcome between =>
      rw [first] at cleared
      cases outcome with
      | error e => cases cleared
      | ok u =>
        rcases keys_deleted listed first with ⟨none, root⟩
        simp only [run_bind] at cleared
        cases second : removeEach [indexPath s.root, entryPointsPath s.root] between with
        | mk outcome last =>
          rw [second] at cleared
          cases outcome with
          | error e => cases cleared
          | ok u =>
            have kept : last.keys = between.keys := by
              refine @removeEach_beside _ _ _ root [indexName, entryPointsName] ?_ second
              intro x member
              rcases List.mem_pair.mp member with rfl | rfl
              · exact ⟨proper_indexName, by decide⟩
              · exact ⟨proper_entryPointsName, by decide⟩
            cases cleared
            refine ⟨⟨⟨[], kept.trans none, .nil, by simp⟩, ?_, ?_⟩, fun _ => rfl, fun _ _ => rfl,
              fun _ => rfl⟩
            all_goals
              intro k shard found
              cases found

end Clear

end Store

end DataReach
