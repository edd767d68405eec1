import DataReach.Function
import DataReach.Impact.Risk
/-!
Findings of a security detector, and what the call graph adds to them: the data that the code around
a finding reaches, and how far a fault there spreads.
-/

namespace DataReach

inductive Severity where
  | critical
  | high
  | medium
  | low
  | info
  deriving DecidableEq, Repr, Inhabited

namespace Severity

def all : List Severity := [.critical, .high, .medium, .low, .info]

def name : Severity → String
  | .critical => "critical"
  | .high => "high"
  | .medium => "medium"
  | .low => "low"
  | .info => "info"

def named? (s : String) : Option Severity := all.find? (·.name == s)

def score : Severity → Float
  | .critical => 100
  | .high => 80
  | .medium => 55
  | .low => 30
  | .info => 10

end Severity

inductive Category where
  | injection
  | deserialization
  | authentication
  | ssrf
  | pathTraversal
  | xss
  | authorization
  | dataExposure
  | cryptography
  | misconfiguration
  | logging
  | other
  deriving DecidableEq, Repr, Inhabited

namespace Category

def all : List Category :=
  [.injection, .deserialization, .authentication, .ssrf, .pathTraversal, .xss, .authorization,
    .dataExposure, .cryptography, .misconfiguration, .logging, .other]

def name : Category → String
  | .injection => "injection"
  | .deserialization => "deserialization"
  | .authentication => "authentication"
  | .ssrf => "ssrf"
  | .pathTraversal => "path_traversal"
  | .xss => "xss"
  | .authorization => "authorization"
  | .dataExposure => "data_exposure"
  | .cryptography => "cryptography"
  | .misconfiguration => "misconfiguration"
  | .logging => "logging"
  | .other => "other"

def named? (s : String) : Option Category := all.find? (·.name == s)

def exploitability : Category → Float
  | .injection => 95
  | .deserialization => 90
  | .authentication => 85
  | .ssrf | .pathTraversal => 80
  | .xss | .authorization => 75
  | .dataExposure => 70
  | .cryptography => 60
  | .misconfiguration | .other => 50
  | .logging => 30

end Category

/-- How open the entry points in front of a finding are. -/
inductive Exposure where
  | anonymousPublic
  | authenticatedPublic
  | anonymousInternal
  | internal
  | unexposed
  deriving DecidableEq, Repr, Inhabited

namespace Exposure

def all : List Exposure :=
  [.anonymousPublic, .authenticatedPublic, .anonymousInternal, .internal, .unexposed]

def name : Exposure → String
  | .anonymousPublic => "public_unauthenticated"
  | .authenticatedPublic => "public"
  | .anonymousInternal => "unauthenticated_internal"
  | .internal => "internal"
  | .unexposed => "none"

def named? (s : String) : Option Exposure := all.find? (·.name == s)

def score : Exposure → Float
  | .anonymousPublic => 70
  | .authenticatedPublic => 50
  | .anonymousInternal => 35
  | .internal => 15
  | .unexposed => 5

def ease : Exposure → Float
  | .anonymousPublic => 15
  | .authenticatedPublic => 10
  | .anonymousInternal => 0
  | .internal => -10
  | .unexposed => -15

end Exposure

structure Finding where
  id : String
  file : String
  line : UInt32
  severity : Severity
  category : Category
  /-- A base score up to ten, where the detector gives one. -/
  cvss : Option Float := none
  /-- Taken from the call graph when it is not known. -/
  exposure : Option Exposure := none
  deriving Inhabited

structure FieldImpact where
  table : String
  field : String
  sensitivity : Sensitivity
  /-- Each once, in their fixed order. -/
  operations : List Operation
  /-- The least depth at which the field is reached. -/
  depth : Nat
  deriving DecidableEq, Repr, Inhabited

structure DataImpact where
  fields : List FieldImpact := []
  tables : List String := []
  functionsReached : UInt32 := 0
  maxDepth : Nat := 0
  regulations : List Regulation := []
  deriving DecidableEq, Repr, Inhabited

def DataImpact.hasCredentials (d : DataImpact) : Bool :=
  d.fields.any (·.sensitivity == .credentials)

structure BlastRadius where
  exposure : Exposure := .unexposed
  affectedFunctions : UInt32 := 0
  entryPoints : UInt32 := 0
  linesOfCode : UInt32 := 0
  avgCallDepth : Float := 0
  /-- No entry point and at most a handful of callers lead to the code. -/
  contained : Bool := true
  deriving Inhabited

end DataReach
