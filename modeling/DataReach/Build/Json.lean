import DataReach.Build
/-! The JSON form of the results of a build. -/

namespace DataReach

def Diagnostics.toJson (d : Diagnostics) : Json :=
  .obj [("total_call_sites", .nat d.totalCallSites), ("resolved", .nat d.resolved),
    ("unresolved", .nat d.unresolved),
    ("by_strategy", .obj (d.byStrategy.map fun p => (p.1, .nat p.2))),
    ("batches", .nat d.batches), ("shards_rewritten", .nat d.shardsChanged)]

def BuildResult.toJson (r : BuildResult) : Json :=
  .obj [("files_processed", .nat r.filesProcessed), ("total_functions", .nat r.totalFunctions),
    ("total_calls", .nat r.totalCalls), ("resolved_calls", .nat r.resolvedCalls),
    ("resolution_rate", .float r.resolutionRate), ("entry_points", .nat r.entryPoints),
    ("data_accessors", .nat r.dataAccessors), ("errors", .strings r.errors),
    ("resolution", r.resolution.toJson)]

end DataReach
