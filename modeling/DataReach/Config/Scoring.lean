import DataReach.Config
import DataReach.Sensitivity.Classifier
/-! The classifier and the regulations that settings ask for. -/

namespace DataReach.ScoringConfig

def classifier (c : ScoringConfig) : Classifier := .ofOverrides c.sensitivity.entries

def regulations (c : ScoringConfig) : RegulationMap :=
  RegulationMap.standard.withOverrides c.regulation.entries

end DataReach.ScoringConfig
