import DataReach.Dict
import DataReach.Function
/-! Shards kept in memory, with counts of how often they were found there. -/

namespace DataReach

/-- A cache without capacity keeps nothing. -/
structure Cache where
  capacity : Nat
  shards : Dict String Shard := []
  hits : Nat := 0
  misses : Nat := 0
  deriving Inhabited

namespace Cache

def find (c : Cache) (key : String) : Option Shard × Cache :=
  match c.shards.get? key with
  | some s => (some s, { c with hits := c.hits + 1 })
  | none => (none, { c with misses := c.misses + 1 })

def insert (c : Cache) (key : String) (s : Shard) : Cache :=
  if c.capacity = 0 then c else { c with shards := c.shards.insert key s }

def contains (c : Cache) (key : String) : Bool := c.shards.contains key

def evict (c : Cache) (key : String) : Cache := { c with shards := c.shards.erase key }

def evictAll (c : Cache) : Cache := { c with shards := [] }

def size (c : Cache) : Nat := c.shards.length

def hitRate (c : Cache) : Float :=
  let total := c.hits + c.misses
  if total = 0 then 0.0 else c.hits.toFloat / total.toFloat

end Cache

end DataReach
