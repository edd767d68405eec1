import DataReach.Sensitivity
/-!
The risk of a change: a score up to 100 from the number of affected functions, of entry points and
of paths to sensitive data, and a level that the classes of data on the paths can raise.
-/

namespace DataReach

inductive RiskLevel where
  | low
  | medium
  | high
  | critical
  deriving DecidableEq, Repr, Inhabited

def RiskLevel.name : RiskLevel → String
  | .low => "low"
  | .medium => "medium"
  | .high => "high"
  | .critical => "critical"

structure PathCounts where
  credentials : UInt32 := 0
  financial : UInt32 := 0
  health : UInt32 := 0
  pii : UInt32 := 0
  deriving DecidableEq, Repr, Inhabited

namespace PathCounts

/-- One more path to data of a class, in a word that starts again after the greatest. -/
def tally (c : PathCounts) : Sensitivity → PathCounts
  | .credentials => { c with credentials := c.credentials + 1 }
  | .financial => { c with financial := c.financial + 1 }
  | .health => { c with health := c.health + 1 }
  | .pii => { c with pii := c.pii + 1 }
  | .unknown => c

def ofClasses (classes : List Sensitivity) : PathCounts := classes.foldl tally {}

end PathCounts

namespace Risk

/-- A sum that stays at the greatest word when it would pass it. -/
def add (a b : UInt32) : UInt32 := .ofNatClamp (a.toNat + b.toNat)

/-- A product that stays at the greatest word when it would pass it. -/
def mul (a b : UInt32) : UInt32 := .ofNatClamp (a.toNat * b.toNat)

def maxScore : UInt32 := 100

def dataScore (c : PathCounts) : UInt32 :=
  add (add (add (mul c.credentials 15) (mul c.financial 12)) (mul c.health 10)) (mul c.pii 5)

/-- Two points for each affected function up to 30, five for each entry point up to 25, and the
points of the paths. -/
def score (affected entryPoints : Nat) (c : PathCounts) : UInt32 :=
  let breadth := min (mul (.ofNatClamp affected) 2) 30
  let surface := min (mul (.ofNatClamp entryPoints) 5) 25
  min (add (add breadth surface) (dataScore c)) maxScore

def level (score : UInt32) (c : PathCounts) : RiskLevel :=
  if 75 ≤ score || 0 < c.credentials then .critical
  else if 50 ≤ score || 0 < c.financial || 0 < c.health then .high
  else if 25 ≤ score || 0 < c.pii then .medium
  else .low

end Risk

end DataReach
