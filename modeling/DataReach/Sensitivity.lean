import DataReach.Distinct
import DataReach.Text.Ascii
import DataReach.Text.Blank
/-! Classes of sensitive data and the regulations that speak of them. -/

namespace DataReach

inductive Sensitivity where
  | credentials
  | financial
  | health
  | pii
  | unknown
  deriving DecidableEq, Repr, Inhabited

namespace Sensitivity

def all : List Sensitivity := [.credentials, .financial, .health, .pii, .unknown]

def name : Sensitivity → String
  | .credentials => "credentials"
  | .financial => "financial"
  | .health => "health"
  | .pii => "pii"
  | .unknown => "unknown"

def severity : Sensitivity → Nat
  | .credentials => 4
  | .financial => 3
  | .health => 2
  | .pii => 1
  | .unknown => 0

def isSensitive (s : Sensitivity) : Bool := s != .unknown

def named? (s : String) : Option Sensitivity := all.find? (·.name == s)

def ofName? (s : String) : Option Sensitivity :=
  all.find? fun c => Text.sameIgnoringCase c.name (Text.trim s)

def worse (a b : Sensitivity) : Sensitivity :=
  if b.severity < a.severity then a else b

def worst (classes : List Sensitivity) : Sensitivity :=
  classes.foldl worse .unknown

end Sensitivity

inductive Regulation where
  | gdpr
  | ccpa
  | hipaa
  | pciDss
  | sox
  deriving DecidableEq, Repr, Inhabited

namespace Regulation

def all : List Regulation := [.gdpr, .ccpa, .hipaa, .pciDss, .sox]

def name : Regulation → String
  | .gdpr => "gdpr"
  | .ccpa => "ccpa"
  | .hipaa => "hipaa"
  | .pciDss => "pci-dss"
  | .sox => "sox"

def named? (s : String) : Option Regulation := all.find? (·.name == s)

def bareLetters (s : String) : List Char :=
  (s.toList.filter Char.isAlphanum).map Char.toLower

/-- The regulation a person means: only ASCII letters and digits count, in any case. -/
def ofName? (s : String) : Option Regulation :=
  all.find? fun r => bareLetters r.name == bareLetters s

/-- The regulations named by a list, each once, in the order of their first mention. -/
def ofNames (names : List String) : List Regulation :=
  distinct (names.filterMap ofName?)

end Regulation

structure RegulationMap where
  regulations : Sensitivity → List Regulation

namespace RegulationMap

def standard : RegulationMap where
  regulations
    | .pii => [.gdpr, .ccpa]
    | .health => [.hipaa, .gdpr]
    | .financial => [.pciDss, .sox]
    | .credentials => [.pciDss]
    | .unknown => []

def set (m : RegulationMap) (s : Sensitivity) (rs : List Regulation) : RegulationMap where
  regulations c := if c = s then rs else m.regulations c

/-- Each override replaces the whole entry of its class; one for an unknown class is ignored. -/
def withOverrides (m : RegulationMap) (overrides : List (String × List String)) : RegulationMap :=
  overrides.foldl
    (fun m o =>
      match Sensitivity.ofName? o.1 with
      | some s => m.set s (Regulation.ofNames o.2)
      | none => m) m

def forAll (m : RegulationMap) (classes : List Sensitivity) : List Regulation :=
  Regulation.all.filter fun r => classes.any fun c => (m.regulations c).contains r

end RegulationMap

end DataReach
