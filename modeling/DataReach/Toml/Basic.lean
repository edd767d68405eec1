/-!
TOML values. A table remembers how it came to be, because that decides whether it may still grow.
-/

namespace DataReach

/-- A table has a header of its own, or is implied by the header of a table in it, or by a dotted
key, or is written in one piece. -/
inductive Toml.TableKind where
  | header
  | implied
  | dotted
  | inline
  deriving DecidableEq, Repr, Inhabited

/-- Of a number with a fraction or an exponent, and of a date or time, the text is kept. -/
inductive Toml where
  | string (s : String)
  | integer (n : Int)
  | float (text : String)
  | boolean (b : Bool)
  | datetime (text : String)
  | array (items : List Toml)
  | table (kind : Toml.TableKind) (members : List (String × Toml))
  | tables (items : List (List (String × Toml)))
  deriving Inhabited

namespace Toml

abbrev Members := List (String × Toml)

def replace (ms : Members) (key : String) (v : Toml) : Members :=
  ms.map fun m => if m.1 == key then (key, v) else m

def changeLast (f : Members → Option Members) : List Members → Option (List Members)
  | [] => none
  | [last] => do return [← f last]
  | first :: rest => do return first :: (← changeLast f rest)

/-- Adds a value under a dotted key. Tables on the way are made if need be; one with a header of its
own, or written in one piece, takes no more. -/
def assign (ms : Members) (path : List String) (key : String) (v : Toml) : Option Members :=
  match path with
  | [] => if (ms.lookup key).isSome then none else some (ms ++ [(key, v)])
  | name :: path =>
    match ms.lookup name with
    | none => do return ms ++ [(name, .table .dotted (← assign [] path key v))]
    | some (.table .dotted inner) => do
      return replace ms name (.table .dotted (← assign inner path key v))
    | some (.table .implied inner) =>
      if path.isEmpty then none
      else do return replace ms name (.table .implied (← assign inner path key v))
    | some (.tables items) =>
      if path.isEmpty then none
      else do
        return replace ms name (.tables (← changeLast (fun inner => assign inner path key v) items))
    | some _ => none

/-- Changes the table that names lead to; of several tables the last is meant. Tables on the way are
implied if need be. -/
def within (ms : Members) (path : List String) (f : Members → Option Members) : Option Members :=
  match path with
  | [] => f ms
  | name :: path =>
    match ms.lookup name with
    | none => do return ms ++ [(name, .table .implied (← within [] path f))]
    | some (.table .inline _) => none
    | some (.table kind inner) => do return replace ms name (.table kind (← within inner path f))
    | some (.tables items) => do
      return replace ms name (.tables (← changeLast (fun inner => within inner path f) items))
    | some _ => none

def openTable (name : String) (ms : Members) : Option Members :=
  match ms.lookup name with
  | none => some (ms ++ [(name, .table .header [])])
  | some (.table .implied inner) => some (replace ms name (.table .header inner))
  | some _ => none

def openNext (name : String) (ms : Members) : Option Members :=
  match ms.lookup name with
  | none => some (ms ++ [(name, .tables [[]])])
  | some (.tables items) => some (replace ms name (.tables (items ++ [[]])))
  | some _ => none

end Toml

end DataReach
