import DataReach.Disk
import DataReach.Error
import DataReach.Sensitivity
import DataReach.SortedMap
import DataReach.Store
/-! Settings of a project. What is not set has a default. -/

namespace DataReach

structure BuildConfig where
  batchSize : Option Nat := none
  threads : Option Nat := none
  cacheCapacity : Option Nat := none
  storageDir : Option String := none
  deriving DecidableEq, Inhabited

structure AnalysisConfig where
  maxDepth : Option Nat := none
  topN : Option Nat := none
  deriving DecidableEq, Inhabited

/-- Classes for keywords and regulations for classes, in place of the built-in ones. -/
structure ScoringConfig where
  sensitivity : SortedMap String := .empty
  regulation : SortedMap (List String) := .empty
  deriving DecidableEq, Inhabited

structure Config where
  build : BuildConfig := {}
  analysis : AnalysisConfig := {}
  scoring : ScoringConfig := {}
  deriving DecidableEq, Inhabited

namespace BuildConfig

def defaultStorageDir : String := ".provenance/call-graph"

def effectiveBatchSize (c : BuildConfig) : Nat := c.batchSize.getD Store.defaultBatchSize

def effectiveCapacity (c : BuildConfig) : Nat := c.cacheCapacity.getD Store.defaultCapacity

def effectiveStorageDir (c : BuildConfig) : String := c.storageDir.getD defaultStorageDir

end BuildConfig

def AnalysisConfig.effectiveTopN (c : AnalysisConfig) : Nat := c.topN.getD Store.defaultTopN

namespace Config

def storagePath (c : Config) (root : String) : String :=
  Path.join root c.build.effectiveStorageDir

/-! ### Validation -/

def positive (field : String) (value : Option Nat) : Except ConfigError Unit :=
  if value = some 0 then .error (.validationFailed field "must be greater than 0") else .ok ()

def knownClass (field name : String) : Except ConfigError Unit :=
  if (Sensitivity.ofName? name).isNone then
    .error (.invalidValue field ("unknown sensitivity '" ++ name ++ "'"))
  else .ok ()

/-- Names are known in any letter case, but only as they are spelt. -/
def isKnownRegulation (name : String) : Bool := (Regulation.named? (Text.lower name)).isSome

def knownRegulations (field : String) (names : List String) : Except ConfigError Unit :=
  match names.find? (!isKnownRegulation ·) with
  | some bad => .error (.invalidValue field ("unknown regulation '" ++ bad ++ "'"))
  | none => .ok ()

def validateClasses : List (String × String) → Except ConfigError Unit
  | [] => .ok ()
  | (keyword, name) :: rest => do
    knownClass ("scoring.sensitivity_overrides." ++ keyword) name
    validateClasses rest

def validateRegulations : List (String × List String) → Except ConfigError Unit
  | [] => .ok ()
  | (name, regulations) :: rest => do
    knownClass "scoring.regulation_overrides" name
    knownRegulations ("scoring.regulation_overrides." ++ name) regulations
    validateRegulations rest

def validate (c : Config) : Except ConfigError Unit := do
  positive "build.resolution_batch_size" c.build.batchSize
  positive "build.cache_capacity" c.build.cacheCapacity
  positive "analysis.top_n" c.analysis.topN
  validateClasses c.scoring.sensitivity.entries
  validateRegulations c.scoring.regulation.entries

/-! ### Layers -/

/-- What the second one sets counts, for every setting and every key of its own. -/
def merge (base other : Config) : Config where
  build := {
    batchSize := other.build.batchSize.or base.build.batchSize
    threads := other.build.threads.or base.build.threads
    cacheCapacity := other.build.cacheCapacity.or base.build.cacheCapacity
    storageDir := other.build.storageDir.or base.build.storageDir }
  analysis := {
    maxDepth := other.analysis.maxDepth.or base.analysis.maxDepth
    topN := other.analysis.topN.or base.analysis.topN }
  scoring := {
    sensitivity := base.scoring.sensitivity.insertAll other.scoring.sensitivity.entries
    regulation := base.scoring.regulation.insertAll other.scoring.regulation.entries }

def numberBelow? (bound : Nat) (text : String) : Option Nat :=
  let digits := match Text.trimList text.toList with
    | '+' :: rest => rest
    | cs => cs
  if digits.isEmpty || !digits.all Char.isDigit then none
  else
    let n := digits.foldl (fun n c => 10 * n + (c.toNat - '0'.toNat)) 0
    if n < bound then some n else none

abbrev Environment := List (String × String)

/-- What the environment sets; a number that cannot be read is as if it were not set. -/
def ofEnvironment (env : Environment) : Config :=
  let number (name : String) (bound : Nat) := (env.lookup name).bind (numberBelow? bound)
  { build := {
      batchSize := number "PROVENANCE_BUILD_BATCH_SIZE" UInt64.size
      threads := number "PROVENANCE_BUILD_THREADS" UInt64.size
      cacheCapacity := number "PROVENANCE_BUILD_CACHE_CAPACITY" UInt64.size
      storageDir := env.lookup "PROVENANCE_STORAGE_DIR" }
    analysis := {
      maxDepth := number "PROVENANCE_ANALYSIS_MAX_DEPTH" UInt32.size
      topN := number "PROVENANCE_ANALYSIS_TOP_N" UInt64.size } }

structure Flags where
  batchSize : Option Nat := none
  threads : Option Nat := none
  maxDepth : Option Nat := none
  storageDir : Option String := none

def ofFlags (f : Flags) : Config where
  build := { batchSize := f.batchSize, threads := f.threads, storageDir := f.storageDir }
  analysis := { maxDepth := f.maxDepth }

end Config

def Store.ofConfig (disk : Disk) (root : String) (c : Config) : Except StorageError Store := do
  let s ← Store.openAt disk (c.storagePath root) c.build.effectiveCapacity
  return (s.withBatchSize c.build.effectiveBatchSize).withTopN c.analysis.effectiveTopN

end DataReach
