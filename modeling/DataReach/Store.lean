import DataReach.Disk
import DataReach.Error
import DataReach.Function.Json
import DataReach.Json.Written
import DataReach.SortBy
import DataReach.Store.Cache
/-!
Shards on disk, one document each, behind a cache. Writing goes to both; what cannot be read
counts as absent.
-/

namespace DataReach

structure Store where
  root : String
  disk : Disk
  cache : Cache
  /-- How many shards are in memory at a time while all are visited. -/
  batchSize : Nat
  /-- The length of the lists of the index. -/
  topN : Nat
  /-- The time that documents are marked with. -/
  now : Nat := 0
  deriving Inhabited

def chunks (n : Nat) : List α → List (List α)
  | [] => []
  | x :: rest => (x :: rest.take (n - 1)) :: chunks n (rest.drop (n - 1))
termination_by xs => xs.length
decreasing_by
  simp only [List.length_drop, List.length_cons]
  omega

namespace Store

def formatVersion : String := "1.0"
def defaultBatchSize : Nat := 50
def defaultCapacity : Nat := 256
def defaultTopN : Nat := 20

def filesDir (root : String) : String := Path.join root "files"

def shardPath (root key : String) : String := Path.join (filesDir root) (key ++ ".json")

def pathError (path : String) (e : DiskError) : StorageError := .io path e.message

def openAt (disk : Disk) (root : String) (capacity : Nat) : Except StorageError Store :=
  if disk.isFile root then .error (.invalidRoot root)
  else
    match disk.createDirectories (filesDir root) with
    | (.error e, _) => .error (pathError (filesDir root) e)
    | (.ok (), disk) => .ok {
        root, disk
        cache := { capacity := max capacity 1 }
        batchSize := defaultBatchSize
        topN := defaultTopN }

def withBatchSize (s : Store) (n : Nat) : Store := { s with batchSize := max n 1 }

def withTopN (s : Store) (n : Nat) : Store := { s with topN := n }

/-! ### Documents -/

def writeDocument (s : Store) (path : String) (j : Json) : Except StorageError Unit × Store :=
  let draft := path ++ ".tmp"
  match s.disk.write draft (.document j.reread) with
  | .error e => (.error (pathError draft e), s)
  | .ok disk =>
    match disk.rename draft path with
    | .error e => (.error (pathError path e), { s with disk })
    | .ok disk => (.ok (), { s with disk })

def readDocument (s : Store) (path : String) : Option Json :=
  match s.disk.read path with
  | .ok c => c.json?
  | .error _ => none

def shardDocument (shard : Shard) : Json :=
  match shard.toJson with
  | .obj members => .obj (("version", .str formatVersion) :: members)
  | j => j

/-- The shard of a document of the current version; all of the document has to have a value. -/
def shardOfDocument? (j : Json) : Option Shard :=
  match j with
  | .obj _ => do
    guard (j.sound Json.maxNesting)
    let r ← j.record ["version", "file", "functions"]
    let version ← r.need "version" Json.text?
    guard (version == formatVersion)
    Shard.readWith Operation.ofDocument? r
  | _ => none

def readShard (s : Store) (key : String) : Option Shard :=
  (s.readDocument (shardPath s.root key)).bind shardOfDocument?

/-! ### Shards -/

def save (shard : Shard) : StateM Store (Except StorageError String) := fun s =>
  match s.writeDocument (shardPath s.root shard.key) (shardDocument shard) with
  | (.error e, s) => (.error e, s)
  | (.ok _, s) => (.ok shard.key, { s with cache := s.cache.insert shard.key shard })

def load (key : String) : StateM Store (Option Shard) := fun s =>
  match s.cache.find key with
  | (some shard, cache) => (some shard, { s with cache })
  | (none, cache) =>
    match s.readShard key with
    | some shard => (some shard, { s with cache := cache.insert key shard })
    | none => (none, { s with cache })

def loadPath (file : String) : StateM Store (Option Shard) := load (shardKey file)

def keyOfName (name : String) : Option String :=
  match name.toList.reverse with
  | 'n' :: 'o' :: 's' :: 'j' :: '.' :: c :: rest => some (String.ofList (c :: rest).reverse)
  | _ => none

def keys (s : Store) : Except StorageError (List String) :=
  match s.disk.list (filesDir s.root) with
  | .ok names => .ok (sortBy (fun a b => decide (a ≤ b)) (names.filterMap keyOfName))
  | .error .notFound => .ok []
  | .error e => .error (pathError (filesDir s.root) e)

def evict (key : String) : StateM Store Unit :=
  modify fun s => { s with cache := s.cache.evict key }

def evictAll : StateM Store Unit :=
  modify fun s => { s with cache := s.cache.evictAll }

def removeFile (s : Store) (path : String) : Except StorageError Bool × Store :=
  match s.disk.removeFile path with
  | .ok disk => (.ok true, { s with disk })
  | .error .notFound => (.ok false, s)
  | .error e => (.error (pathError path e), s)

def delete (key : String) : StateM Store (Except StorageError Bool) := do
  evict key
  fun s => s.removeFile (shardPath s.root key)

def deleteEach : List String → StateM Store (Except StorageError Unit)
  | [] => return .ok ()
  | key :: rest => do
    match ← delete key with
    | .error e => return .error e
    | .ok _ => deleteEach rest

def indexPath (root : String) : String := Path.join root "index.json"

def entryPointsPath (root : String) : String := Path.join root "entry-points.json"

def removeEach : List String → StateM Store (Except StorageError Unit)
  | [] => return .ok ()
  | path :: rest => do
    match ← (fun s => s.removeFile path : StateM Store _) with
    | .error e => return .error e
    | .ok _ => removeEach rest

/-- Removes all shards and derived documents, up to the first that cannot be removed. -/
def clear : StateM Store (Except StorageError Nat) := do
  let s ← get
  match s.keys with
  | .error e => return .error e
  | .ok keys =>
    match ← deleteEach keys with
    | .error e => return .error e
    | .ok () =>
      match ← removeEach [indexPath s.root, entryPointsPath s.root] with
      | .error e => return .error e
      | .ok () =>
        evictAll
        return .ok keys.length

/-! ### Visiting all shards -/

def loadEach : List String → StateM Store (List Shard)
  | [] => return []
  | key :: rest => do
    let found ← load key
    let others ← loadEach rest
    return found.toList ++ others

def evictEach : List String → StateM Store Unit
  | [] => return ()
  | key :: rest => do
    evict key
    evictEach rest

def sweepBatches : List (List String) → StateM Store (List Shard)
  | [] => return []
  | batch :: rest => do
    let found ← loadEach batch
    evictEach batch
    let others ← sweepBatches rest
    return found ++ others

/-- All readable shards by ascending key; each batch leaves the cache before the next is read. -/
def sweep : StateM Store (Except StorageError (List Shard)) := do
  let s ← get
  match s.keys with
  | .error e => return .error e
  | .ok keys => return .ok (← sweepBatches (chunks s.batchSize keys))

end Store

end DataReach
