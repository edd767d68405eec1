import DataReach.Build
import DataReach.Build.Json
import DataReach.Callers
import DataReach.Config
import DataReach.Config.Json
import DataReach.Config.Load
import DataReach.Config.Scoring
import DataReach.Config.Toml
import DataReach.Decimal.Fixed
import DataReach.Decimal.Shortest
import DataReach.Derived.Index
import DataReach.Derived.Json
import DataReach.Derived.Survey
import DataReach.Dict
import DataReach.Digest
import DataReach.Disk
import DataReach.Disk.Path
import DataReach.Distinct
import DataReach.Error
import DataReach.Extraction
import DataReach.Extraction.Route
import DataReach.Extraction.Shard
import DataReach.Extraction.TableName
import DataReach.Finding
import DataReach.Finding.Enrichment
import DataReach.Finding.Json
import DataReach.Finding.Priority
import DataReach.Function
import DataReach.Function.Json
import DataReach.Graph
import DataReach.Impact
import DataReach.Impact.Json
import DataReach.Impact.Risk
import DataReach.Inquiry
import DataReach.Json.Basic
import DataReach.Json.Numeral
import DataReach.Json.Reader
import DataReach.Json.Record
import DataReach.Json.Written
import DataReach.NameIndex
import DataReach.Reach.Backward
import DataReach.Reach.Data
import DataReach.Reach.Forward
import DataReach.Reach.Inverse
import DataReach.Reach.Json
import DataReach.Reach.Path
import DataReach.Resolution
import DataReach.Sensitivity
import DataReach.Sensitivity.Classifier
import DataReach.Sensitivity.Identifier
import DataReach.Sensitivity.Keyword
import DataReach.SortBy
import DataReach.SortedMap
import DataReach.Store
import DataReach.Store.Cache
import DataReach.Store.Derived
import DataReach.Store.Json
import DataReach.Store.Queries
import DataReach.Store.Resolver
import DataReach.Text.Ascii
import DataReach.Text.Blank
import DataReach.Text.Segment
import DataReach.Text.Word
import DataReach.Toml.Basic
import DataReach.Toml.Number
import DataReach.Toml.Printer
import DataReach.Toml.Reader
import DataReach.Toml.Text
import DataReach.Toml.Time
import DataReach.Proofs.Distance
import DataReach.Proofs.Shortest
import DataReach.Proofs.Totals
import DataReach.Proofs.Reach.Forward
import DataReach.Proofs.Reach.Data
import DataReach.Proofs.Reach.Backward
import DataReach.Proofs.Reach.Inverse
import DataReach.Proofs.Impact.Affected
import DataReach.Proofs.Impact.DataPaths
import DataReach.Proofs.Disk.Path
import DataReach.Proofs.Disk.Tree
import DataReach.Proofs.Disk.Operations
import DataReach.Proofs.Float.Packing
import DataReach.Proofs.Float.Rounding
import DataReach.Proofs.Json.Numeral
import DataReach.Proofs.Store.Document
import DataReach.Proofs.Store.Files
import DataReach.Proofs.Store.Holds
import DataReach.Proofs.Store.Recalled
import DataReach.Proofs.Store.Passes
import DataReach.Proofs.Store.Resolver
import DataReach.Proofs.Store.Rewriting
import DataReach.Proofs.Callers
import DataReach.Proofs.Resolution
import DataReach.Proofs.Linked
import DataReach.Proofs.Converse
import DataReach.Proofs.Impact.Converse
import DataReach.Proofs.Reach.Agreement
import DataReach.Proofs.Build
import DataReach.Proofs.Settling
import DataReach.Proofs.Convergence
import DataReach.Proofs.Store.Removal
import DataReach.Proofs.Store.Session
import DataReach.Proofs.Store.Settings
import DataReach.Proofs.Store.Derived
import DataReach.Proofs.Store.Tally
import DataReach.Proofs.Reproducible
import DataReach.Proofs.FunctionId
import DataReach.Proofs.Lookup
import DataReach.Proofs.Plain
import DataReach.Proofs.Analyses
import DataReach.Proofs.Store.Answers
import DataReach.Proofs.Sources
import DataReach.Proofs.Finding.DataImpact
import DataReach.Proofs.Finding.Credentials
import DataReach.Proofs.Derived.Survey
import DataReach.Proofs.Store.Shown
import DataReach.Proofs.Store.Reached
import DataReach.Proofs.Derived.Counts
import DataReach.Proofs.Derived.EntryPoints
import DataReach.Proofs.Store.Reports
import DataReach.Proofs.Store.Counters
import DataReach.Proofs.Store.Script
import DataReach.Proofs.Store.Keyed
import DataReach.Proofs.Store.Residency
import DataReach.Proofs.Store.Hindered
import DataReach.Proofs.Store.Failures
import DataReach.Proofs.Store.Hurdles
import DataReach.Proofs.Store.Entries
import DataReach.Proofs.Store.Clutter
import DataReach.Proofs.Store.Overlooked
import DataReach.Proofs.SortedMap
import DataReach.Proofs.Sensitivity.Overrides
import DataReach.Proofs.Config.Layers
import DataReach.Proofs.Config.Precedence
import DataReach.Proofs.Config.Valid
import DataReach.Proofs.Text.Segment
import DataReach.Proofs.NameIndex
import DataReach.Proofs.Extraction.Placement
import DataReach.Proofs.Extraction.Reordering
import DataReach.Proofs.Toml.Text
import DataReach.Proofs.Toml.Number
import DataReach.Proofs.Toml.Reader
import DataReach.Proofs.Toml.Document
import DataReach.Proofs.Config.Toml
import DataReach.Proofs.Extraction.Innermost
import DataReach.Proofs.Resolution.Outcome
import DataReach.Proofs.Reach.Filters
import DataReach.Proofs.Reach.Truncation
import DataReach.Proofs.DepthBound
import DataReach.Proofs.Impact.Risk
import DataReach.Proofs.Impact.Routes
import DataReach.Proofs.Sensitivity.Identifier
import DataReach.Proofs.Text.Run
import DataReach.Proofs.Sensitivity.Embedding
import DataReach.Proofs.Sensitivity.LongestMatch
import DataReach.Proofs.Graph
import DataReach.Proofs.Sensitivity.Canonical
import DataReach.Proofs.Reach.Queue
import DataReach.Proofs.Reach.Retrace
import DataReach.Proofs.Words
