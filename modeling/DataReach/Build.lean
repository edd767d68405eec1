import DataReach.Extraction.Shard
import DataReach.Store.Derived
import DataReach.Store.Resolver
/-!
Building the call graph of a code base from extractions: the old shards go, new ones are written and
resolved, and the derived documents are made.
-/

namespace DataReach

structure BuildResult where
  filesProcessed : Nat
  totalFunctions : Nat
  totalCalls : Nat
  resolvedCalls : Nat
  resolutionRate : Float
  entryPoints : Nat
  dataAccessors : Nat
  /-- What went wrong without ending the build. -/
  errors : List String
  resolution : Diagnostics
  deriving Inhabited

/-- Finds functions, calls and accesses in the files that it handles. -/
structure Extractor where
  handles : String → Bool
  language : String
  extract : Content → String → Except ExtractionError Extraction

def ExtractionError.coded (e : ExtractionError) : String := DataReach.coded e.code e.message

def StorageError.coded (e : StorageError) : String := DataReach.coded e.code e.message

def Extraction.ownShard (e : Extraction) : Shard := e.shard e.file e.accesses

def Extraction.warnings (e : Extraction) : List String :=
  e.errors.map fun m => (ExtractionError.failed e.file m).coded

namespace Extractor

/-- The extraction of a file by the first extractor that handles it. -/
def extractFile (disk : Disk) (root : String) (extractors : List Extractor) (file : String) :
    Except ExtractionError Extraction :=
  match extractors.find? (·.handles file) with
  | none => .error (.unsupported file)
  | some x =>
    match disk.read (Path.join root file) with
    | .error e => .error (.unreadable file e.message)
    | .ok content => do
      let found ← x.extract content file
      return { found with
        file := file
        language := if found.language.isEmpty then x.language else found.language }

end Extractor

def BuildResult.ofIndex (written : Nat) (errors : List String) (resolution : Diagnostics)
    (s : IndexSummary) : BuildResult where
  filesProcessed := written
  totalFunctions := s.totalFunctions
  totalCalls := s.totalCalls
  resolvedCalls := s.resolvedCalls
  resolutionRate := s.resolutionRate
  entryPoints := s.entryPoints
  dataAccessors := s.dataAccessors
  errors := errors
  resolution := resolution

namespace Store

/-- Writes shards, each of which leaves the cache at once. Gives the number written and the
errors. -/
def writeEach : List Shard → StateM Store (Nat × List StorageError)
  | [] => return (0, [])
  | shard :: rest => do
    match ← save shard with
    | .ok key =>
      evict key
      let (n, errors) ← writeEach rest
      return (n + 1, errors)
    | .error e =>
      let (n, errors) ← writeEach rest
      return (n, e :: errors)

/-- Builds from extractions whose shards come to be written in the order of `arrivals`; `errors`
came up before. -/
def buildArriving (errors : List String) (batchSize : Nat) (patience : Patience)
    (inputs : List Extraction) (arrivals : List Shard) :
    StateM Store (Except GraphError BuildResult) := do
  match ← clear with
  | .error e => return .error (.storage e)
  | .ok _ =>
    let (written, failed) ← writeEach arrivals
    match patience.ask? with
    | none => return .error (.cancelled 0)
    | some patience =>
      match ← resolve batchSize patience with
      | .error e => return .error e
      | .ok resolution =>
        match ← buildDerived with
        | .error e => return .error (.storage e)
        | .ok (index, _) =>
          let errors := errors ++ inputs.flatMap Extraction.warnings ++
            failed.map StorageError.coded ++ resolution.messages
          return .ok (.ofIndex written errors resolution.data index.summary)

def build (batchSize : Nat) (patience : Patience) (inputs : List Extraction) :
    StateM Store (Except GraphError BuildResult) :=
  buildArriving [] batchSize patience inputs (inputs.map Extraction.ownShard)

/-- Builds from the files under a root; one that cannot be extracted is reported and left out. -/
def buildFromFiles (batchSize : Nat) (patience : Patience) (root : String)
    (extractors : List Extractor) (files : List String) :
    StateM Store (Except GraphError BuildResult) := do
  let found := files.map (Extractor.extractFile (← get).disk root extractors)
  let inputs := found.filterMap Except.toOption
  let errors := found.filterMap fun
    | .error e => some e.coded
    | .ok _ => none
  buildArriving errors batchSize patience inputs (inputs.map Extraction.ownShard)

end Store

end DataReach
