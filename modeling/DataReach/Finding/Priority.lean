import DataReach.Decimal.Fixed
import DataReach.Finding
/-!
The priority of a finding. Four scores up to 100 are weighted and summed; regulations raise the
sum, code that reaches no tables and a contained blast radius lower it, and credentials within
reach keep it from falling below a floor.
-/

namespace DataReach

inductive Tier where
  | p0
  | p1
  | p2
  | p3
  | p4
  deriving DecidableEq, Repr, Inhabited

def Tier.name : Tier → String
  | .p0 => "P0"
  | .p1 => "P1"
  | .p2 => "P2"
  | .p3 => "P3"
  | .p4 => "P4"

structure Factor where
  name : String
  description : String
  deriving DecidableEq, Repr, Inhabited

structure Priority where
  overall : Float
  tier : Tier
  severityScore : Float
  dataImpactScore : Float
  blastRadiusScore : Float
  exploitabilityScore : Float
  increasing : List Factor
  decreasing : List Factor
  deriving Inhabited

namespace Score

def atMost (bound x : Float) : Float := if bound < x then bound else x

def atLeast (bound x : Float) : Float := if x < bound then bound else x

def clamp (x : Float) : Float :=
  if x.isNaN then 0 else atMost 100 (atLeast 0 x)

end Score

open Score

def Severity.scoreWith (s : Severity) (cvss : Option Float) : Float :=
  match cvss with
  | some x =>
    if x.isFinite then clamp ((s.score + atMost 10.0 (atLeast 0.0 x) * 10.0) / 2.0) else s.score
  | none => s.score

def Sensitivity.factor : Sensitivity → Float
  | .credentials => 2.0
  | .financial | .health => 1.6
  | .pii => 1.2
  | .unknown => 0.4

def Operation.factor : Operation → Float
  | .delete => 1.3
  | .write => 1.2
  | .read => 1.0

/-- A field counts by its class and the gravest operation on it, less with every call before it. -/
def FieldImpact.score (f : FieldImpact) : Float :=
  let operation := (f.operations.map Operation.factor).foldl atLeast 1.0
  let decay := 1.0 / (f.depth.toFloat + 1.0).sqrt
  50.0 * f.sensitivity.factor * operation * decay

namespace DataImpact

/-- The score of sensitive fields, by their number, the number of tables, and the size of the graph
in which they are reached. -/
def sensitiveScore (d : DataImpact) : Float :=
  let summed := (d.fields.map FieldImpact.score).foldl (· + ·) 0.0
  let perField := summed / d.fields.length.toFloat.sqrt
  let spread := perField * (1.0 + 0.2 * (max d.tables.length 1).toFloat.log10)
  let deep :=
    if 3 < d.maxDepth then spread * atLeast 0.5 (1.0 - 0.05 * (d.maxDepth - 3).toFloat) else spread
  let broad :=
    if 10 < d.functionsReached then
      deep * (1.0 + atMost 0.2 (0.05 * (d.functionsReached.toNat.toFloat / 10.0).log2))
    else deep
  clamp broad

def score (d : DataImpact) : Float :=
  if d.fields.isEmpty then
    if d.tables.isEmpty then 0.0
    else atMost 30.0 (10.0 + 5.0 * (d.tables.length - 1).toFloat)
  else d.sensitiveScore

end DataImpact

namespace BlastRadius

def score (b : BlastRadius) : Float :=
  let functions := atMost 15.0 (10.0 * (1.0 + b.affectedFunctions.toNat.toFloat).log10)
  let lines := atMost 15.0 (5.0 * (1.0 + b.linesOfCode.toNat.toFloat).log10)
  clamp (b.exposure.score + functions + lines)

def deepChain : Float := 5

def isDeep (b : BlastRadius) : Bool := deepChain < b.avgCallDepth

end BlastRadius

def Category.exploitabilityIn (c : Category) (b : BlastRadius) : Float :=
  clamp (c.exploitability + b.exposure.ease + (if b.isDeep then -10.0 else 0.0))

def Tier.ofScore (overall : Float) (exposure : Exposure) (credentials : Bool) : Tier :=
  if 90.0 ≤ overall || (75.0 ≤ overall && exposure == .anonymousPublic) then .p0
  else if 70.0 ≤ overall || credentials then .p1
  else if 50.0 ≤ overall then .p2
  else if 30.0 ≤ overall then .p3
  else .p4

namespace Priority

def severityWeight : Float := 0.30
def dataImpactWeight : Float := 0.35
def blastRadiusWeight : Float := 0.20
def exploitabilityWeight : Float := 0.15

def credentialFloor : Float := 85

def withRegulations (d : DataImpact) (x : Float) : Float :=
  if d.regulations.isEmpty then x else x + atMost 15.0 (5.0 * d.regulations.length.toFloat)

def adjusted (d : DataImpact) (b : BlastRadius) (x : Float) : Float :=
  let x := withRegulations d x
  let x := if d.tables.isEmpty then x * 0.7 else x
  let x := if b.contained then x * 0.8 else x
  if d.hasCredentials then atLeast credentialFloor x else x

def factorIf (condition : Bool) (name description : String) : List Factor :=
  if condition then [⟨name, description⟩] else []

def increasingFactors (s : Severity) (d : DataImpact) (b : BlastRadius) : List Factor :=
  factorIf (s == .critical || s == .high) "severity" (s.name ++ " severity finding") ++
  factorIf (!d.regulations.isEmpty) "regulatory"
    ("implicates " ++ ", ".intercalate (d.regulations.map (·.name))) ++
  factorIf d.hasCredentials "credential_exposure" "reaches credential fields" ++
  factorIf (b.exposure == .anonymousPublic) "public_unauthenticated"
    "reachable from public entry points without authentication"

def decreasingFactors (d : DataImpact) (b : BlastRadius) : List Factor :=
  factorIf d.tables.isEmpty "no_data_access" "reaches no tables" ++
  factorIf b.contained "contained"
    (Nat.repr b.affectedFunctions.toNat ++ " affected functions, no entry points") ++
  factorIf (b.exposure == .internal || b.exposure == .unexposed) "limited_exposure"
    "not reachable from public entry points" ++
  factorIf b.isDeep "deep_call_chain" ("average call depth " ++ Decimal.fixed 1 b.avgCallDepth)

def ofFinding (s : Severity) (c : Category) (d : DataImpact) (b : BlastRadius)
    (cvss : Option Float) : Priority :=
  let severity := s.scoreWith cvss
  let dataImpact := d.score
  let blast := b.score
  let exploitability := c.exploitabilityIn b
  let weighted := severity * severityWeight + dataImpact * dataImpactWeight +
    blast * blastRadiusWeight + exploitability * exploitabilityWeight
  let overall := clamp (adjusted d b weighted)
  { overall
    tier := .ofScore overall b.exposure d.hasCredentials
    severityScore := severity
    dataImpactScore := dataImpact
    blastRadiusScore := blast
    exploitabilityScore := exploitability
    increasing := increasingFactors s d b
    decreasing := decreasingFactors d b }

end Priority

end DataReach
