import DataReach.Proofs.Store.Removal
import DataReach.Proofs.SortedMap
/-!
A store as seen by its clients. However requests follow each other and whatever the cache loses
meanwhile, the replies are those of a plain sorted map that is updated by the saves, deletes and
clears alone.
-/

namespace DataReach

namespace Store

/-! ### A cache that loses shards -/

def loadEachLosing (losses : String → List String) : List String → StateM Store (List Shard)
  | [] => return []
  | key :: rest => do
    evictEach (losses key)
    let found ← load key
    let others ← loadEachLosing losses rest
    return found.toList ++ others

def sweepBatchesLosing (losses : String → List String) :
    List (List String) → StateM Store (List Shard)
  | [] => return []
  | batch :: rest => do
    let found ← loadEachLosing losses batch
    evictEach batch
    let others ← sweepBatchesLosing losses rest
    return found ++ others

/-- A sweep is the only action that consults the cache more than once. -/
def sweepLosing (losses : String → List String) :
    StateM Store (Except StorageError (List Shard)) := do
  let s ← get
  match s.keys with
  | .error e => return .error e
  | .ok keys => return .ok (← sweepBatchesLosing losses (chunks s.batchSize keys))

theorem loadEachLosing_nothing (keys : List String) :
    loadEachLosing (fun _ => []) keys = loadEach keys := by
  induction keys with
  | nil => rfl
  | cons key rest ih =>
    rw [loadEachLosing, ih]
    rfl

theorem sweepLosing_nothing : sweepLosing (fun _ => []) = sweep := by
  have batches : ∀ bs, sweepBatchesLosing (fun _ => []) bs = sweepBatches bs := by
    intro bs
    induction bs with
    | nil => rfl
    | cons batch rest ih => rw [sweepBatchesLosing, loadEachLosing_nothing, ih, sweepBatches]
  simp only [sweepLosing, batches]
  rfl

section Losing

variable {s : Store} {m : String → Option Shard}

theorem evictEach_holds (holds : Holds s m) (keys : List String) :
    ∃ cache, evictEach keys s = ((), { s with cache }) ∧ Holds { s with cache } m := by
  have same : uncovered m m keys = m := by
    funext k
    rw [uncovered, ite_self]
  have shown := evictEach_shows holds keys
  rwa [same] at shown

theorem loadEachLosing_holds (holds : Holds s m) (losses : String → List String)
    {keys : List String} (stored : ∀ k ∈ keys, m k ≠ none) :
    ∃ cache, loadEachLosing losses keys s = (keys.filterMap m, { s with cache }) ∧
      Holds { s with cache } m := by
  induction keys generalizing s with
  | nil => exact ⟨s.cache, rfl, holds⟩
  | cons key rest ih =>
    rcases evictEach_holds holds (losses key) with ⟨first, lost, held⟩
    rcases load_shows held (stored key (List.mem_cons_self ..)) with ⟨second, loaded, held⟩
    rcases ih held fun k later => stored k (List.mem_cons_of_mem key later) with
      ⟨last, others, held⟩
    refine ⟨last, ?_, held⟩
    rw [loadEachLosing, run_bind, lost, run_bind, loaded, run_bind, others, List.filterMap_cons]
    cases m key <;> rfl

theorem sweepBatchesLosing_holds (holds : Holds s m) (losses : String → List String)
    {batches : List (List String)} (stored : ∀ k ∈ batches.flatten, m k ≠ none) :
    ∃ cache, sweepBatchesLosing losses batches s =
        (batches.flatten.filterMap m, { s with cache }) ∧ Holds { s with cache } m := by
  induction batches generalizing s with
  | nil => exact ⟨s.cache, rfl, holds⟩
  | cons batch rest ih =>
    rw [List.flatten_cons] at stored
    rcases loadEachLosing_holds holds losses fun k member =>
      stored k (List.mem_append_left _ member) with ⟨first, loaded, held⟩
    rcases evictEach_holds held batch with ⟨second, evicted, held⟩
    rcases ih held fun k later => stored k (List.mem_append_right batch later) with
      ⟨last, others, held⟩
    refine ⟨last, ?_, held⟩
    rw [sweepBatchesLosing, run_bind, loaded, run_bind, evicted, run_bind, others, run_pure,
      List.flatten_cons, List.filterMap_append]

theorem sweepLosing_holds (holds : Holds s m) (losses : String → List String) {ks : List String}
    (listed : s.keys = .ok ks) :
    ∃ cache, sweepLosing losses s = (.ok (ks.filterMap m), { s with cache }) ∧
      Holds { s with cache } m := by
  have stored : ∀ k ∈ (chunks s.batchSize ks).flatten, m k ≠ none := by
    rcases holds.listed with ⟨all, same, -, members⟩
    rw [listed] at same
    cases same
    rw [flatten_chunks]
    exact fun k member => (members k).mp member
  rcases sweepBatchesLosing_holds holds losses stored with ⟨cache, swept, held⟩
  rw [flatten_chunks] at swept
  refine ⟨cache, ?_, held⟩
  rw [sweepLosing, run_bind, run_get]
  simp only [listed]
  rw [run_bind, swept]
  rfl

end Losing

/-! ### Requests -/

inductive Request where
  | save (shard : Shard)
  | load (key : String)
  | loadPath (file : String)
  | delete (key : String)
  | evict (key : String)
  | evictAll
  | clear
  | list
  /-- Visits all shards, while the cache loses some before each key. -/
  | sweep (losses : String → List String)

inductive Reply where
  | saved (key : String)
  | found (shard : Option Shard)
  | deleted (existed : Bool)
  | evicted
  | cleared (count : Nat)
  | listed (keys : List String)
  | swept (visited : List Shard) (count : Nat)

namespace Request

/-- Whether a request changes files, so that these may hinder it. -/
def writes : Request → Bool
  | save _ | delete _ | clear => true
  | _ => false

def Proper : Request → Prop
  | save shard => shard.Legible
  | load key | delete key => '/' ∉ key.toList ∧ key ≠ ""
  | _ => True

def on : Request → StateM Store (Except StorageError Reply)
  | save shard => do return (← Store.save shard).map .saved
  | load key => do return .ok (.found (← Store.load key))
  | loadPath file => do return .ok (.found (← Store.loadPath file))
  | delete key => do return (← Store.delete key).map .deleted
  | evict key => do
    Store.evict key
    return .ok .evicted
  | evictAll => do
    Store.evictAll
    return .ok .evicted
  | clear => do return (← Store.clear).map .cleared
  | list => do return (← get).keys.map .listed
  | sweep losses => do return (← sweepLosing losses).map fun visited => .swept visited visited.length

/-- What a map without files and cache replies, and what becomes of it. -/
def onMap (m : SortedMap Shard) : Request → Reply × SortedMap Shard
  | save shard => (.saved shard.key, m.insert shard.key shard)
  | load key => (.found (m.get? key), m)
  | loadPath file => (.found (m.get? (shardKey file)), m)
  | delete key => (.deleted (m.get? key).isSome, m.erase key)
  | evict _ | evictAll => (.evicted, m)
  | clear => (.cleared m.size, .empty)
  | list => (.listed m.keys, m)
  | sweep _ => (.swept m.values m.size, m)

end Request

def serve : List Request → StateM Store (List (Except StorageError Reply))
  | [] => return []
  | r :: rest => do
    let reply ← r.on
    let others ← serve rest
    return reply :: others

def repliesOf (m : SortedMap Shard) : List Request → List Reply
  | [] => []
  | r :: rest => (r.onMap m).1 :: repliesOf (r.onMap m).2 rest

def unhindered (s : Store) : List Request → Bool
  | [] => true
  | r :: rest => (!r.writes || (r.on s).1.isOk) && unhindered (r.on s).2 rest

section Step

variable {s s' : Store} {m : SortedMap Shard}

theorem keys_of_holds (holds : Holds s m.get?) : s.keys = .ok m.keys := by
  rcases holds.listed with ⟨ks, listed, ascending, members⟩
  have same : ks = m.keys := by
    apply ascending.eq_of_mem_iff m.keys_ascending
    intro k
    rw [members, m.mem_keys]
  rw [listed, same]

theorem save_reply {shard : Shard} {key : String} (saved : save shard s = (.ok key, s')) :
    key = shard.key := by
  unfold save at saved
  rcases outcome : s.writeDocument (shardPath s.root shard.key) (shardDocument shard) with
    ⟨_ | _, written⟩
  · simp only [outcome] at saved
    cases saved
  · simp only [outcome] at saved
    cases saved
    rfl

theorem on_holds (holds : Holds s m.get?) {r : Request} (proper : r.Proper)
    (free : r.writes = true → (r.on s).1.isOk = true) :
    ∃ s', r.on s = (.ok (r.onMap m).1, s') ∧ Holds s' (r.onMap m).2.get? := by
  cases r with
  | save shard =>
    rw [Request.on, run_bind] at free ⊢
    rcases outcome : save shard s with ⟨_ | key, s'⟩
    · rw [outcome] at free
      cases free rfl
    · refine ⟨s', ?_, ?_⟩
      · rw [save_reply outcome]
        rfl
      · rw [Request.onMap, SortedMap.get?_insert]
        exact save_holds holds proper outcome
  | load key =>
    rcases load_shown holds proper.1 proper.2 with ⟨cache, loaded, held⟩
    rw [Request.on, run_bind, loaded]
    exact ⟨_, rfl, held⟩
  | loadPath file =>
    rcases load_shown holds (plain_shardKey file) (shardKey_ne_empty file) with
      ⟨cache, loaded, held⟩
    rw [Request.on, run_bind, loadPath, loaded]
    exact ⟨_, rfl, held⟩
  | delete key =>
    rw [Request.on, run_bind] at free ⊢
    rcases outcome : delete key s with ⟨_ | existed, s'⟩
    · rw [outcome] at free
      cases free rfl
    · rcases delete_holds holds proper.1 proper.2 outcome with ⟨was, held⟩
      refine ⟨s', ?_, ?_⟩
      · rw [was]
        rfl
      · rw [Request.onMap, SortedMap.get?_erase]
        exact held
  | evict key =>
    rcases evict_holds holds key with ⟨cache, evicted, held⟩
    rw [Request.on, run_bind, evicted]
    exact ⟨_, rfl, held⟩
  | evictAll => exact ⟨_, rfl, evictAll_holds holds⟩
  | clear =>
    rw [Request.on, run_bind] at free ⊢
    rcases outcome : clear s with ⟨_ | count, s'⟩
    · rw [outcome] at free
      cases free rfl
    · refine ⟨s', ?_, clear_holds outcome⟩
      rw [clear_count (keys_of_holds holds) outcome, m.length_keys]
      rfl
  | list =>
    rw [Request.on, run_bind, run_get, keys_of_holds holds]
    exact ⟨s, rfl, holds⟩
  | sweep losses =>
    rcases sweepLosing_holds holds losses (keys_of_holds holds) with ⟨cache, swept, held⟩
    rw [m.filterMap_keys] at swept
    rw [Request.on, run_bind, swept, Request.onMap, ← m.length_values]
    exact ⟨_, rfl, held⟩

theorem serve_holds (holds : Holds s m.get?) {requests : List Request}
    (proper : ∀ r ∈ requests, r.Proper) (free : s.unhindered requests = true) :
    (serve requests s).1 = (repliesOf m requests).map .ok := by
  induction requests generalizing s m with
  | nil => rfl
  | cons r rest ih =>
    rw [unhindered, Bool.and_eq_true] at free
    have first : r.writes = true → (r.on s).1.isOk = true := by
      intro writes
      have one := free.1
      rwa [writes, Bool.not_true, Bool.false_or] at one
    rcases on_holds holds (proper r (List.mem_cons_self ..)) first with ⟨s', replied, held⟩
    rw [replied] at free
    have others := ih held (fun r' later => proper r' (List.mem_cons_of_mem r later)) free.2
    rw [serve, run_bind, replied, run_bind, run_pure, others]
    rfl

end Step

/-- A store that starts without shards replies as a plain map does: it gives the last shard that was
saved under a key and not deleted since, and lists, counts and visits exactly the keys that have
one, in ascending order. -/
theorem serve_refines {s : Store} {requests : List Request} (listed : s.keys = .ok [])
    (uncached : s.cache.shards = []) (proper : ∀ r ∈ requests, r.Proper)
    (free : s.unhindered requests = true) :
    (serve requests s).1 = (repliesOf .empty requests).map .ok :=
  serve_holds (holds_fresh listed uncached) proper free

def emptyStore : Store where
  root := "/t"
  disk := (Disk.empty.createDirectories "/t/files").2
  cache := { capacity := 1 }
  batchSize := 2
  topN := 1

def callingShard : Shard where
  file := "a.py"
  functions := [{
    id := "a.py:f:1", name := "f", qualifiedName := "f", file := "a.py", startLine := 1, endLine := 9
    isEntryPoint := true, isDataAccessor := false
    calls := [⟨"g", true, some "b.py:g:1", 0.75, 3⟩]
    calledBy := [], dataAccess := [] }]

/-- A shard is visited while the cache loses it, replaced and deleted; another one is cleared. -/
def mixedSession : List Request :=
  [.save callingShard, .sweep fun key => [key], .evict callingShard.key, .loadPath "a.py",
    .save ⟨"a.py", []⟩, .load callingShard.key, .delete callingShard.key, .load callingShard.key,
    .save ⟨"b.py", []⟩, .evictAll, .list, .clear, .loadPath "b.py"]

theorem serve_refines_mixed :
    emptyStore.keys = .ok [] ∧ (∀ r ∈ mixedSession, r.Proper) ∧
      emptyStore.unhindered mixedSession = true ∧
      (serve mixedSession emptyStore).1 = (repliesOf .empty mixedSession).map .ok := by
  have listed : emptyStore.keys = .ok [] := by decide +kernel
  have free : emptyStore.unhindered mixedSession = true := by decide +kernel
  have legible : callingShard.Legible := by
    intro f member e call
    obtain rfl := List.mem_singleton.mp member
    obtain rfl := List.mem_singleton.mp call
    unfold CallEdge.Legible
    decide +kernel
  have proper : ∀ r ∈ mixedSession, r.Proper := by
    intro r member
    simp only [mixedSession, List.mem_cons, List.not_mem_nil, or_false] at member
    rcases member with rfl | rfl | rfl | rfl | rfl | rfl | rfl | rfl | rfl | rfl | rfl | rfl | rfl
    all_goals
      first
        | exact trivial
        | exact legible
        | exact fun f none => nomatch none
        | exact ⟨plain_shardKey _, shardKey_ne_empty _⟩
  exact ⟨listed, proper, free, serve_refines listed rfl proper free⟩

end Store

end DataReach
