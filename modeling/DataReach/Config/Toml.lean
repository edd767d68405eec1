import DataReach.Config
import DataReach.Toml.Printer
import DataReach.Toml.Reader
/-! Settings in TOML. Unknown keys are ignored. -/

namespace DataReach

namespace Toml

def datetimeKey : String := "$__toml_private_datetime"

def entries? : Toml → Option Members
  | .table _ ms => some ms
  | .datetime t => some [(datetimeKey, .string t)]
  | _ => none

def record (names : List String) : Toml → Option Members
  | .array items => some (names.zip items)
  | .tables items => some (names.zip (items.map (.table .header)))
  | t => t.entries?

def text? : Toml → Option String
  | .string s => some s
  | _ => none

def natBelow? (bound : Nat) : Toml → Option Nat
  | .integer n => if 0 ≤ n ∧ n < bound then some n.toNat else none
  | _ => none

def texts? : Toml → Option (List String)
  | .array items => items.mapM text?
  | .tables [] => some []
  | _ => none

def map? (f : Toml → Option α) (t : Toml) : Option (SortedMap α) := do
  let ms ← t.entries?
  return .ofList (← ms.mapM fun m => (f m.2).map (m.1, ·))

def Members.option (ms : Members) (name : String) (f : Toml → Option α) : Option (Option α) :=
  match ms.lookup name with
  | none => some none
  | some t => (f t).map some

def Members.default (ms : Members) (name : String) (f : Toml → Option α) (value : α) : Option α :=
  match ms.lookup name with
  | none => some value
  | some t => f t

end Toml

namespace BuildConfig

def ofToml? (t : Toml) : Option BuildConfig := do
  let r ← t.record ["resolution_batch_size", "threads", "cache_capacity", "storage_dir"]
  return {
    batchSize := ← Toml.Members.option r "resolution_batch_size" (Toml.natBelow? UInt64.size)
    threads := ← Toml.Members.option r "threads" (Toml.natBelow? UInt64.size)
    cacheCapacity := ← Toml.Members.option r "cache_capacity" (Toml.natBelow? UInt64.size)
    storageDir := ← Toml.Members.option r "storage_dir" Toml.text? }

end BuildConfig

def AnalysisConfig.ofToml? (t : Toml) : Option AnalysisConfig := do
  let r ← t.record ["max_depth", "top_n"]
  return {
    maxDepth := ← Toml.Members.option r "max_depth" (Toml.natBelow? UInt32.size)
    topN := ← Toml.Members.option r "top_n" (Toml.natBelow? UInt64.size) }

def ScoringConfig.ofToml? (t : Toml) : Option ScoringConfig := do
  let r ← t.record ["sensitivity_overrides", "regulation_overrides"]
  return {
    sensitivity := ← Toml.Members.default r "sensitivity_overrides" (Toml.map? Toml.text?) .empty
    regulation := ← Toml.Members.default r "regulation_overrides" (Toml.map? Toml.texts?) .empty }

namespace Config

def ofToml? (t : Toml) : Option Config := do
  let r ← t.record ["build", "analysis", "scoring"]
  return {
    build := ← Toml.Members.default r "build" BuildConfig.ofToml? {}
    analysis := ← Toml.Members.default r "analysis" AnalysisConfig.ofToml? {}
    scoring := ← Toml.Members.default r "scoring" ScoringConfig.ofToml? {} }

def readToml (path text : String) : Except ConfigError Config :=
  match (Toml.parse text).bind ofToml? with
  | some c => .ok c
  | none => .error (.unparsable path "invalid configuration")

def parse (text : String) : Except ConfigError Config := do
  let c ← readToml "<string>" text
  c.validate
  return c

/-! ### Writing -/

def maxInteger : Nat := (1 <<< 63) - 1

def writable (c : Config) : Bool :=
  [c.build.batchSize, c.build.threads, c.build.cacheCapacity, c.analysis.maxDepth,
    c.analysis.topN].all fun n => n.all (· ≤ maxInteger)

def pair? (name : String) (render : α → List Char) (value : Option α) : List (List Char) :=
  (value.map fun v => Toml.renderPair name (render v)).toList

/-- All sections in a fixed order, one blank line between them, with what is set. -/
def sections (c : Config) : List (List Char) := [
  Toml.renderSection "build"
    (pair? "resolution_batch_size" Toml.renderNat c.build.batchSize ++
      pair? "threads" Toml.renderNat c.build.threads ++
      pair? "cache_capacity" Toml.renderNat c.build.cacheCapacity ++
      pair? "storage_dir" Toml.renderText c.build.storageDir),
  Toml.renderSection "analysis"
    (pair? "max_depth" Toml.renderNat c.analysis.maxDepth ++
      pair? "top_n" Toml.renderNat c.analysis.topN),
  Toml.renderSection "scoring.sensitivity_overrides"
    (c.scoring.sensitivity.entries.map fun e => Toml.renderPair e.1 (Toml.renderText e.2)),
  Toml.renderSection "scoring.regulation_overrides"
    (c.scoring.regulation.entries.map fun e => Toml.renderPair e.1 (Toml.renderArray e.2))]

def toToml (c : Config) : Except ConfigError String :=
  if c.writable then .ok (String.ofList (['\n'].intercalate c.sections))
  else .error (.unparsable "<serialization>" "out-of-range value for an integer")

end Config

end DataReach
