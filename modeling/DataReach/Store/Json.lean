import DataReach.Store.Queries
/-! The JSON form of what the store reports. -/

namespace DataReach

def StoreStats.toJson (s : StoreStats) : Json :=
  .obj [("files", .nat s.files), ("functions", .nat s.functions), ("calls", .nat s.calls),
    ("resolved_calls", .nat s.resolvedCalls), ("entry_points", .nat s.entryPoints),
    ("data_accessors", .nat s.dataAccessors)]

def TableAccess.toJson (a : TableAccess) : Json :=
  .obj [("function_id", .str a.functionId), ("function_name", .str a.functionName),
    ("file", .str a.file), ("access", a.access.toJson)]

def Cache.statsToJson (c : Cache) : Json :=
  .obj [("hits", .nat c.hits), ("misses", .nat c.misses), ("entries", .nat c.size),
    ("hit_rate", .float c.hitRate)]

end DataReach
