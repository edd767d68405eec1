import DataReach.Derived.Json
import DataReach.Store
/-! The derived documents of a store. They are made afresh from all shards. -/

namespace DataReach.Store

def putIndex (shards : List Shard) (entries : List EntryPoint) :
    StateM Store (Except StorageError GraphIndex) := fun s =>
  let index := GraphIndex.ofShards formatVersion s.now s.topN shards entries
  match s.writeDocument (indexPath s.root) index.toJson with
  | (.ok _, s) => (.ok index, s)
  | (.error e, s) => (.error e, s)

def putEntryPoints (entries : List EntryPoint) :
    StateM Store (Except StorageError EntryPointList) := fun s =>
  let list : EntryPointList := ⟨formatVersion, s.now, entries⟩
  match s.writeDocument (entryPointsPath s.root) list.toJson with
  | (.ok _, s) => (.ok list, s)
  | (.error e, s) => (.error e, s)

def buildIndex : StateM Store (Except StorageError GraphIndex) := do
  match ← sweep with
  | .error e => return .error e
  | .ok shards => putIndex shards (EntryPoint.ofShards shards)

def buildEntryPoints : StateM Store (Except StorageError EntryPointList) := do
  match ← sweep with
  | .error e => return .error e
  | .ok shards => putEntryPoints (EntryPoint.ofShards shards)

def buildDerived : StateM Store (Except StorageError (GraphIndex × EntryPointList)) := do
  match ← sweep with
  | .error e => return .error e
  | .ok shards =>
    let entries := EntryPoint.ofShards shards
    match ← putIndex shards entries with
    | .error e => return .error e
    | .ok index =>
      match ← putEntryPoints entries with
      | .error e => return .error e
      | .ok list => return .ok (index, list)

def index? (s : Store) : Option GraphIndex :=
  ((s.readDocument (indexPath s.root)).bind GraphIndex.ofJson?).filter (·.version == formatVersion)

def entryPoints? (s : Store) : Option EntryPointList :=
  ((s.readDocument (entryPointsPath s.root)).bind EntryPointList.ofJson?).filter
    (·.version == formatVersion)

end DataReach.Store
