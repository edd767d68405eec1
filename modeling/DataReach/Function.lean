import DataReach.Digest
import DataReach.Text.Ascii
/-!
Functions of a code base with their call sites, their callers and their accesses to tables; the
functions of one file form a shard.
-/

namespace DataReach

inductive Operation where
  | read
  | write
  | delete
  deriving DecidableEq, Repr, Inhabited

namespace Operation

def name : Operation → String
  | .read => "read"
  | .write => "write"
  | .delete => "delete"

def rank : Operation → Nat
  | .read => 0
  | .write => 1
  | .delete => 2

def all : List Operation := [.read, .write, .delete]

def named? (s : String) : Option Operation := all.find? (·.name == s)

def ofVerb? (verb : String) : Option Operation :=
  let verb := Text.lower verb
  if ["read", "select", "find", "get"].contains verb then some .read
  else if ["write", "insert", "update", "upsert", "create", "save"].contains verb then some .write
  else if ["delete", "remove", "destroy"].contains verb then some .delete
  else none

end Operation

structure CallEdge where
  target : String
  resolved : Bool
  resolvedId : Option String
  confidence : Float
  line : UInt32
  deriving Inhabited

structure CallerRef where
  callerId : String
  line : UInt32
  deriving DecidableEq, Repr, Inhabited

/-- An access without fields touches the table as a whole. -/
structure DataAccess where
  table : String
  operation : Operation
  line : UInt32
  fields : List String
  deriving DecidableEq, Repr, Inhabited

structure FunctionNode where
  id : String
  name : String
  qualifiedName : String
  file : String
  startLine : UInt32
  endLine : UInt32
  isEntryPoint : Bool
  isDataAccessor : Bool
  calls : List CallEdge
  calledBy : List CallerRef
  dataAccess : List DataAccess
  deriving Inhabited

structure Shard where
  file : String
  functions : List FunctionNode
  deriving Inhabited

def CallEdge.unresolved (target : String) (line : UInt32) : CallEdge :=
  ⟨target, false, none, 0.0, line⟩

def CallEdge.callee? (e : CallEdge) : Option String :=
  if e.resolved then e.resolvedId else none

def DataAccess.matches (a : DataAccess) (table : String) (field : Option String) : Bool :=
  a.table == table && field.all a.fields.contains

namespace FunctionNode

def makeId (file name : String) (line : UInt32) : String :=
  file ++ ":" ++ name ++ ":" ++ Nat.repr line.toNat

def beforeColon (reversed : List Char) : Option (List Char) :=
  match reversed.dropWhile (· != ':') with
  | [] => none
  | _ :: rest => some rest

/-- The file of an id: all before its last two colons, unless that is empty. -/
def fileOfId (id : String) : Option String := do
  let back ← beforeColon id.toList.reverse
  let back ← beforeColon back
  if back.isEmpty then none else some (String.ofList back.reverse)

def containsLine (f : FunctionNode) (line : UInt32) : Bool :=
  f.startLine ≤ line && line ≤ f.endLine

/-- Lines after the first one; zero when the end stands before the start. -/
def span (f : FunctionNode) : UInt32 :=
  if f.startLine ≤ f.endLine then f.endLine - f.startLine else 0

def unresolvedCalls (f : FunctionNode) : Nat :=
  (f.calls.filter (!·.resolved)).length

def resolvedCallees (f : FunctionNode) : List String :=
  f.calls.filterMap CallEdge.callee?

def accesses (f : FunctionNode) (table : String) (field : Option String) : Bool :=
  f.dataAccess.any (·.matches table field)

def isNamed (f : FunctionNode) (name : String) : Bool :=
  f.name == name || f.qualifiedName == name

end FunctionNode

def FunctionNode.idLe (a b : FunctionNode) : Bool := decide (a.id ≤ b.id)

/-- The position of the containing function with the fewest lines, the first of several. A span of
2^32 - 1 lines counts as containing nothing. -/
def innermostFrom (line : UInt32) : Nat → Option Nat → UInt32 → List FunctionNode → Option Nat
  | _, best, _, [] => best
  | i, best, size, f :: rest =>
    if f.containsLine line && f.span < size then innermostFrom line (i + 1) (some i) f.span rest
    else innermostFrom line (i + 1) best size rest

def innermostPosition (functions : List FunctionNode) (line : UInt32) : Option Nat :=
  innermostFrom line 0 none 0xFFFFFFFF functions

def innermost (functions : List FunctionNode) (line : UInt32) : Option FunctionNode :=
  (innermostPosition functions line).bind (functions[·]?)

def shardKey (path : String) : String :=
  let slashed := String.ofList (path.toList.map fun c => if c = '\\' then '/' else c)
  Digest.hex (Digest.xxh3 slashed.toUTF8)

def total (count : α → Nat) : List α → Nat
  | [] => 0
  | x :: rest => count x + total count rest

/-- A count summed over a list in words, which start again after the greatest. -/
def wordTotal (count : α → Nat) (xs : List α) : UInt32 :=
  xs.foldl (fun sum x => sum + .ofNat (count x)) 0

namespace Shard

def key (s : Shard) : String := shardKey s.file

def function? (s : Shard) (id : String) : Option FunctionNode :=
  s.functions.find? (·.id == id)

def callCount (s : Shard) : Nat :=
  total (·.calls.length) s.functions

def resolvedCallCount (s : Shard) : Nat :=
  total (fun f => (f.calls.filter (·.resolved)).length) s.functions

end Shard

end DataReach
