import DataReach.Json.Basic
/-!
Reading records out of JSON values. A record is written as an object with named members, of which
unknown ones are ignored and known ones stand at most once, or as an array with the members in
their order.
-/

namespace DataReach

abbrev Record := List (String × Json)

namespace Json

def record (names : List String) : Json → Option Record
  | .obj members =>
    let known := members.filter fun m => names.contains m.1
    if (known.map (·.1)).Nodup then some known else none
  | .arr items => if items.length ≤ names.length then some (names.zip items) else none
  | _ => none

def text? : Json → Option String
  | .str s => some s
  | _ => none

def bool? : Json → Option Bool
  | .bool b => some b
  | _ => none

def natBelow? (bound : Nat) : Json → Option Nat
  | .num (.nat n) => if n < bound then some n else none
  | _ => none

def word? (j : Json) : Option UInt32 := (j.natBelow? UInt32.size).map UInt32.ofNat

def size? (j : Json) : Option Nat := j.natBelow? UInt64.size

def float? : Json → Option Float
  | .num (.nat n) => some n.toUInt64.toFloat
  | .num (.neg n) => some (-n.toUInt64.toFloat)
  | .num (.float x) => some x
  | _ => none

def list? (f : Json → Option α) : Json → Option (List α)
  | .arr items => items.mapM f
  | _ => none

def strings? : Json → Option (List String) := list? text?

/-- The name of a case: a string, or an object whose one member is `null`. -/
def case? : Json → Option String
  | .str s => some s
  | .obj [(name, .null)] => some name
  | _ => none

/-- The name of a case whose content may also be an empty object. -/
def looseCase? : Json → Option String
  | .obj [(name, .obj [])] => some name
  | j => j.case?

def choice? (f : String → Option α) (j : Json) : Option α := j.case?.bind f

def entries? (f : Json → Option α) : Json → Option (List (String × α))
  | .obj members => members.mapM fun m => (f m.2).map (m.1, ·)
  | _ => none

def nullable? (f : Json → Option α) : Json → Option (Option α)
  | .null => some none
  | j => (f j).map some

end Json

namespace Record

def need (r : Record) (name : String) (f : Json → Option α) : Option α :=
  (r.lookup name).bind f

def option (r : Record) (name : String) (f : Json → Option α) : Option (Option α) :=
  match r.lookup name with
  | none => some none
  | some j => j.nullable? f

def default (r : Record) (name : String) (f : Json → Option α) (value : α) : Option α :=
  match r.lookup name with
  | none => some value
  | some j => f j

end Record

end DataReach
