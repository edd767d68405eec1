import DataReach.Config.Scoring
import DataReach.Proofs.Sensitivity.LongestMatch
import DataReach.Proofs.SortedMap
import Mathlib.Data.List.Induction
/-!
Which override counts. Overrides come in the order of their keys, and of those that mean one class, or
come to one keyword, the last one does.
-/

namespace DataReach

/-! ### Regulations -/

namespace RegulationMap

def names (s : Sensitivity) (key : String) : Bool := Sensitivity.ofName? key == some s

theorem set_own {m : RegulationMap} {s : Sensitivity} (rs : List Regulation) :
    (m.set s rs).regulations s = rs := if_pos rfl

theorem set_other {m : RegulationMap} {s c : Sensitivity} (other : c ≠ s) (rs : List Regulation) :
    (m.set s rs).regulations c = m.regulations c := if_neg other

theorem regulations_withOverrides (m : RegulationMap) (es : List (String × List String))
    (s : Sensitivity) :
    (m.withOverrides es).regulations s =
      ((es.reverse.find? fun e => names s e.1).map fun e => Regulation.ofNames e.2).getD
        (m.regulations s) := by
  induction es using List.reverseRecOn with
  | nil => rfl
  | append_singleton front e ih =>
    rw [withOverrides] at ih ⊢
    rw [List.foldl_append, List.reverse_append, List.reverse_singleton, List.singleton_append,
      List.find?_cons]
    simp only [List.foldl_cons, List.foldl_nil]
    cases kind : names s e.1 with
    | true =>
      have own : Sensitivity.ofName? e.1 = some s := by simpa [names] using kind
      simp [own, set_own]
    | false =>
      cases class? : Sensitivity.ofName? e.1 with
      | none => exact ih
      | some c =>
        have other : s ≠ c := by
          rintro rfl
          simp [names, class?] at kind
        exact (set_other other _).trans ih

end RegulationMap

theorem ScoringConfig.regulations_last (c : ScoringConfig) (s : Sensitivity)
    {e : String × List String} (last : c.regulation.last? (RegulationMap.names s) = some e) :
    c.regulations.regulations s = Regulation.ofNames e.2 := by
  rw [ScoringConfig.regulations, RegulationMap.regulations_withOverrides]
  rw [SortedMap.last?] at last
  rw [last]
  rfl

/-! ### Keywords -/

namespace Classifier

theorem ofOverrides_eq {es : List (String × String)}
    (known : ∀ e ∈ es, (Sensitivity.ofName? e.2).isSome) :
    ofOverrides es = ofCalls (es.map fun e => (e.1, (Sensitivity.ofName? e.2).getD .unknown)) := by
  rw [ofOverrides, ofCalls, List.foldl_map]
  refine List.foldl_ext _ _ _ fun c e member => ?_
  obtain ⟨s, named⟩ := Option.isSome_iff_exists.mp (known e member)
  simp only [named, Option.getD_some]

theorem classify_ofOverrides {es : List (String × String)}
    (known : ∀ e ∈ es, (Sensitivity.ofName? e.2).isSome) {key : String} {e : String × String}
    (last : lastFor es (Identifier.normalize key) = some e) {s : Sensitivity}
    (named : Sensitivity.ofName? e.2 = some s) : (ofOverrides es).classify key = s := by
  rw [ofOverrides_eq known]
  apply classify_of_given (keeps_ofCalls _)
  rw [lastGiven, lastFor_map fun value => (Sensitivity.ofName? value).getD .unknown, last]
  simp [named]

end Classifier

theorem ScoringConfig.classify_last (c : ScoringConfig)
    (known : ∀ e ∈ c.sensitivity.entries, (Sensitivity.ofName? e.2).isSome) {key : String}
    (some : Identifier.normalize key ≠ "") {e : String × String}
    (last : c.sensitivity.last? (Classifier.spells (Identifier.normalize key)) = Option.some e) :
    Option.some (c.classifier.classify key) = Sensitivity.ofName? e.2 := by
  have inside := (SortedMap.last?_eq_some.mp last).1
  obtain ⟨s, named⟩ := Option.isSome_iff_exists.mp (known e inside)
  have latest :
      Classifier.lastFor c.sensitivity.entries (Identifier.normalize key) = Option.some e :=
    (if_neg some).trans last
  rw [ScoringConfig.classifier, Classifier.classify_ofOverrides known latest named, named]

end DataReach
