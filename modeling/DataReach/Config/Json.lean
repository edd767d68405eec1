import DataReach.Config
import DataReach.Json.Record
/-! The JSON form of settings. -/

namespace DataReach

namespace SortedMap

def toJson (f : α → Json) (m : SortedMap α) : Json :=
  .obj (m.entries.map fun e => (e.1, f e.2))

def ofJson? (f : Json → Option α) (j : Json) : Option (SortedMap α) :=
  (j.entries? f).map .ofList

end SortedMap

namespace BuildConfig

def toJson (c : BuildConfig) : Json :=
  .obj [("resolution_batch_size", .ofOption .nat c.batchSize),
    ("threads", .ofOption .nat c.threads), ("cache_capacity", .ofOption .nat c.cacheCapacity),
    ("storage_dir", .ofOption .str c.storageDir)]

def ofJson? (j : Json) : Option BuildConfig := do
  let r ← j.record ["resolution_batch_size", "threads", "cache_capacity", "storage_dir"]
  return {
    batchSize := ← r.option "resolution_batch_size" Json.size?
    threads := ← r.option "threads" Json.size?
    cacheCapacity := ← r.option "cache_capacity" Json.size?
    storageDir := ← r.option "storage_dir" Json.text? }

end BuildConfig

namespace AnalysisConfig

def toJson (c : AnalysisConfig) : Json :=
  .obj [("max_depth", .ofOption .nat c.maxDepth), ("top_n", .ofOption .nat c.topN)]

def ofJson? (j : Json) : Option AnalysisConfig := do
  let r ← j.record ["max_depth", "top_n"]
  return {
    maxDepth := ← r.option "max_depth" (Json.natBelow? UInt32.size)
    topN := ← r.option "top_n" Json.size? }

end AnalysisConfig

namespace ScoringConfig

def toJson (c : ScoringConfig) : Json :=
  .obj [("sensitivity_overrides", c.sensitivity.toJson .str),
    ("regulation_overrides", c.regulation.toJson .strings)]

def ofJson? (j : Json) : Option ScoringConfig := do
  let r ← j.record ["sensitivity_overrides", "regulation_overrides"]
  return {
    sensitivity := ← r.default "sensitivity_overrides" (SortedMap.ofJson? Json.text?) .empty
    regulation := ← r.default "regulation_overrides" (SortedMap.ofJson? Json.strings?) .empty }

end ScoringConfig

namespace Config

def toJson (c : Config) : Json :=
  .obj [("build", c.build.toJson), ("analysis", c.analysis.toJson), ("scoring", c.scoring.toJson)]

def ofJson? (j : Json) : Option Config := do
  let r ← j.record ["build", "analysis", "scoring"]
  return {
    build := ← r.default "build" BuildConfig.ofJson? {}
    analysis := ← r.default "analysis" AnalysisConfig.ofJson? {}
    scoring := ← r.default "scoring" ScoringConfig.ofJson? {} }

end Config

end DataReach
