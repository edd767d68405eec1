import DataReach.Config
import DataReach.Proofs.Sensitivity.Overrides
/-!
Valid settings. What is checked of the overrides is meant to be what their readers know: the readers
then pass over no name. The names of regulations are checked as they are spelt, and so some are
refused that would be read.
-/

namespace DataReach

/-! ### Names of regulations -/

namespace Regulation

variable {name : String} {r : Regulation}

theorem bareLetters_eq (name : String) :
    bareLetters name = (Text.lower name).toList.filter Char.isAlphanum := by
  rw [bareLetters, Text.lower, String.toList_ofList, List.filter_map]
  congr 2
  funext c
  exact (Identifier.isAlphanum_toLower c).symm

theorem ofName?_of_same (same : Text.sameIgnoringCase name r.name = true) :
    ofName? name = some r := by
  have lower : Text.lower name = Text.lower r.name := by simpa [Text.sameIgnoringCase] using same
  have letters : bareLetters name = bareLetters r.name := by
    rw [bareLetters_eq, bareLetters_eq, lower]
  rw [ofName?, letters]
  cases r <;> decide

theorem isKnown_iff : Config.isKnownRegulation name = true ↔
    ∃ r : Regulation, Text.sameIgnoringCase name r.name = true := by
  have small : ∀ r : Regulation, Text.lower r.name = r.name := by
    intro r
    cases r <;> decide
  have all : ∀ r : Regulation, r ∈ Regulation.all := by
    intro r
    cases r <;> decide
  simp only [Config.isKnownRegulation, named?, List.find?_isSome, all, true_and,
    Text.sameIgnoringCase, small, beq_iff_eq, @eq_comm _ (Text.lower name)]

end Regulation

/-! ### Names that are read -/

namespace ScoringConfig

/-- Every name in the tables is one that its reader knows. -/
structure Heeded (c : ScoringConfig) : Prop where
  classes : ∀ e ∈ c.sensitivity.entries, (Sensitivity.ofName? e.2).isSome
  keys : ∀ e ∈ c.regulation.entries, (Sensitivity.ofName? e.1).isSome
  regulations : ∀ e ∈ c.regulation.entries, ∀ name ∈ e.2, (Regulation.ofName? name).isSome

def Spelt (c : ScoringConfig) : Prop :=
  ∀ e ∈ c.regulation.entries, ∀ name ∈ e.2,
    ∃ r : Regulation, Text.sameIgnoringCase name r.name = true

/-- The names in the tables mean these classes and regulations, name by name, and the classifier and
the regulations in force are made of all of them. -/
structure ReadAs (c : ScoringConfig) (classes : List Sensitivity)
    (overrides : List (Sensitivity × List Regulation)) : Prop where
  named : c.sensitivity.entries.map (fun e => Sensitivity.ofName? e.2) = classes.map some
  listed : c.regulation.entries.map (fun e =>
    (Sensitivity.ofName? e.1, e.2.map Regulation.ofName?)) =
      overrides.map fun o => (some o.1, o.2.map some)
  classifier : c.classifier = .ofCalls ((c.sensitivity.entries.map (·.1)).zip classes)
  regulations : c.regulations =
    overrides.foldl (fun m o => m.set o.1 (distinct o.2)) .standard

theorem map_eq_of_isSome {α β : Type} {f : α → Option β} {xs : List α}
    (known : ∀ x ∈ xs, (f x).isSome) : xs.map f = (xs.filterMap f).map some := by
  induction xs with
  | nil => rfl
  | cons x rest ih =>
    obtain ⟨own, rest⟩ := List.forall_mem_cons.mp known
    obtain ⟨y, found⟩ := Option.isSome_iff_exists.mp own
    rw [List.map_cons, List.filterMap_cons_some found, List.map_cons, found, ih rest]

theorem isSome_of_map_eq {α β : Type} {f : α → Option β} {xs : List α} {ys : List β}
    (same : xs.map f = ys.map some) : ∀ x ∈ xs, (f x).isSome := by
  intro x member
  have listed : f x ∈ ys.map some := same ▸ List.mem_map_of_mem member
  obtain ⟨y, -, found⟩ := List.mem_map.mp listed
  rw [← found]
  rfl

def meant (e : String × List String) : Sensitivity × List Regulation :=
  ((Sensitivity.ofName? e.1).getD .unknown, e.2.filterMap Regulation.ofName?)

theorem Heeded.readAs {c : ScoringConfig} (heeded : c.Heeded) :
    c.ReadAs (c.sensitivity.entries.map fun e => (Sensitivity.ofName? e.2).getD .unknown)
      (c.regulation.entries.map meant) where
  named := by
    rw [List.map_map]
    refine List.map_congr_left fun e member => ?_
    obtain ⟨s, named⟩ := Option.isSome_iff_exists.mp (heeded.classes e member)
    simp only [Function.comp_apply, named, Option.getD_some]
  listed := by
    rw [List.map_map]
    refine List.map_congr_left fun e member => ?_
    obtain ⟨s, named⟩ := Option.isSome_iff_exists.mp (heeded.keys e member)
    rw [map_eq_of_isSome (heeded.regulations e member)]
    simp only [Function.comp_apply, meant, named, Option.getD_some]
  classifier := by
    rw [classifier, Classifier.ofOverrides_eq heeded.classes, List.zip_map']
  regulations := by
    rw [ScoringConfig.regulations, RegulationMap.withOverrides, List.foldl_map]
    refine List.foldl_ext _ _ _ fun m e member => ?_
    obtain ⟨s, named⟩ := Option.isSome_iff_exists.mp (heeded.keys e member)
    simp only [meant, named, Option.getD_some, Regulation.ofNames]

theorem heeded_iff {c : ScoringConfig} :
    c.Heeded ↔ ∃ classes overrides, c.ReadAs classes overrides := by
  constructor
  · intro heeded
    exact ⟨_, _, heeded.readAs⟩
  · rintro ⟨classes, overrides, read⟩
    have each : ∀ e ∈ c.regulation.entries, ∃ o : Sensitivity × List Regulation,
        some o.1 = Sensitivity.ofName? e.1 ∧ o.2.map some = e.2.map Regulation.ofName? := by
      intro e member
      have listed := List.mem_map_of_mem
        (f := fun e : String × List String =>
          (Sensitivity.ofName? e.1, e.2.map Regulation.ofName?)) member
      rw [read.listed] at listed
      obtain ⟨o, -, same⟩ := List.mem_map.mp listed
      obtain ⟨key, names⟩ := Prod.mk.inj same
      exact ⟨o, key, names⟩
    refine ⟨isSome_of_map_eq read.named, fun e member => ?_, fun e member => ?_⟩
    · obtain ⟨o, own, -⟩ := each e member
      rw [← own]
      rfl
    · obtain ⟨o, -, names⟩ := each e member
      exact isSome_of_map_eq names.symm

end ScoringConfig

/-! ### Valid settings -/

namespace Config

variable {c : Config}

theorem bind_ok {ε : Type} {x y : Except ε Unit} :
    (do x; y) = .ok () ↔ x = .ok () ∧ y = .ok () := by
  cases x with
  | error e => exact ⟨nofun, fun both => nomatch both.1⟩
  | ok u => exact ⟨fun rest => ⟨rfl, rest⟩, fun both => both.2⟩

theorem positive_ok {field : String} {value : Option Nat} :
    positive field value = .ok () ↔ value ≠ some 0 := by
  rw [positive]
  split <;> simp_all

theorem knownClass_ok {field name : String} :
    knownClass field name = .ok () ↔ (Sensitivity.ofName? name).isSome := by
  rw [knownClass]
  cases Sensitivity.ofName? name <;> simp

theorem knownRegulations_ok {field : String} {names : List String} :
    knownRegulations field names = .ok () ↔ ∀ name ∈ names, isKnownRegulation name = true := by
  rw [knownRegulations]
  cases found : names.find? (!isKnownRegulation ·) with
  | none =>
    rw [List.find?_eq_none] at found
    simpa using found
  | some bad =>
    have member := List.mem_of_find?_eq_some found
    have unknown := List.find?_some found
    constructor
    · exact nofun
    · intro all
      rw [all bad member] at unknown
      cases unknown

theorem validateClasses_ok {es : List (String × String)} :
    validateClasses es = .ok () ↔ ∀ e ∈ es, (Sensitivity.ofName? e.2).isSome := by
  induction es with
  | nil => simp [validateClasses]
  | cons e rest ih => rw [validateClasses, bind_ok, knownClass_ok, ih, List.forall_mem_cons]

theorem validateRegulations_ok {es : List (String × List String)} :
    validateRegulations es = .ok () ↔ ∀ e ∈ es, (Sensitivity.ofName? e.1).isSome ∧
      ∀ name ∈ e.2, isKnownRegulation name = true := by
  induction es with
  | nil => simp [validateRegulations]
  | cons e rest ih =>
    rw [validateRegulations, bind_ok, bind_ok, knownClass_ok, knownRegulations_ok, ih,
      List.forall_mem_cons, and_assoc]

structure Valid (c : Config) : Prop where
  batchSize : c.build.batchSize ≠ some 0
  capacity : c.build.cacheCapacity ≠ some 0
  topN : c.analysis.topN ≠ some 0
  classes : ∀ e ∈ c.scoring.sensitivity.entries, (Sensitivity.ofName? e.2).isSome
  regulations : ∀ e ∈ c.scoring.regulation.entries, (Sensitivity.ofName? e.1).isSome ∧
    ∀ name ∈ e.2, isKnownRegulation name = true

theorem validate_ok : c.validate = .ok () ↔ c.Valid := by
  rw [validate, bind_ok, bind_ok, bind_ok, bind_ok, positive_ok, positive_ok, positive_ok,
    validateClasses_ok, validateRegulations_ok]
  exact ⟨fun ⟨batchSize, capacity, topN, classes, regulations⟩ =>
      ⟨batchSize, capacity, topN, classes, regulations⟩,
    fun valid => ⟨valid.batchSize, valid.capacity, valid.topN, valid.classes, valid.regulations⟩⟩

structure Positive (c : Config) : Prop where
  batchSize : c.build.batchSize ≠ some 0
  capacity : c.build.cacheCapacity ≠ some 0
  topN : c.analysis.topN ≠ some 0

theorem valid_iff : c.Valid ↔ c.Positive ∧ c.scoring.Heeded ∧ c.scoring.Spelt := by
  constructor
  · rintro ⟨batchSize, capacity, topN, classes, regulations⟩
    have spelt : c.scoring.Spelt := fun e member name listed =>
      Regulation.isKnown_iff.mp ((regulations e member).2 name listed)
    refine ⟨⟨batchSize, capacity, topN⟩, ⟨classes, fun e member => (regulations e member).1, ?_⟩,
      spelt⟩
    intro e member name listed
    obtain ⟨r, same⟩ := spelt e member name listed
    rw [Regulation.ofName?_of_same same]
    rfl
  · rintro ⟨positive, heeded, spelt⟩
    refine ⟨positive.batchSize, positive.capacity, positive.topN, heeded.classes, ?_⟩
    intro e member
    exact ⟨heeded.keys e member,
      fun name listed => Regulation.isKnown_iff.mpr (spelt e member name listed)⟩

theorem error_of_bind {ε : Type} {x y : Except ε Unit} {fault : ε} (checked : x = .ok ())
    (failed : (do x; y) = .error fault) : y = .error fault := by
  rw [checked] at failed
  exact failed

def unknownRegulation (cls name : String) : ConfigError :=
  .invalidValue ("scoring.regulation_overrides." ++ cls) ("unknown regulation '" ++ name ++ "'")

theorem validateRegulations_error {es : List (String × List String)} {fault : ConfigError}
    (keys : ∀ e ∈ es, (Sensitivity.ofName? e.1).isSome)
    (failed : validateRegulations es = .error fault) :
    ∃ e ∈ es, ∃ bad ∈ e.2, ¬ isKnownRegulation bad = true ∧ fault = unknownRegulation e.1 bad := by
  induction es with
  | nil => cases failed
  | cons e rest ih =>
    obtain ⟨own, keys⟩ := List.forall_mem_cons.mp keys
    rw [validateRegulations] at failed
    have rest? := error_of_bind (knownClass_ok.mpr own) failed
    cases found : e.2.find? (!isKnownRegulation ·) with
    | some bad =>
      have unknown := List.find?_some found
      simp only [knownRegulations, found] at rest?
      cases rest?
      refine ⟨e, List.mem_cons_self .., bad, List.mem_of_find?_eq_some found, ?_, rfl⟩
      simpa using unknown
    | none =>
      simp only [knownRegulations, found] at rest?
      obtain ⟨d, member, bad⟩ := ih keys rest?
      exact ⟨d, List.mem_cons_of_mem _ member, bad⟩

theorem validate_error (positive : c.Positive) (heeded : c.scoring.Heeded) {fault : ConfigError}
    (failed : c.validate = .error fault) : ∃ e ∈ c.scoring.regulation.entries, ∃ bad ∈ e.2,
      ¬ (∃ r : Regulation, Text.sameIgnoringCase bad r.name = true) ∧
        fault = unknownRegulation e.1 bad := by
  rw [validate] at failed
  have capacity := error_of_bind (positive_ok.mpr positive.batchSize) failed
  have topN := error_of_bind (positive_ok.mpr positive.capacity) capacity
  have classes := error_of_bind (positive_ok.mpr positive.topN) topN
  have regulations := error_of_bind (validateClasses_ok.mpr heeded.classes) classes
  obtain ⟨e, member, bad, listed, unknown, same⟩ :=
    validateRegulations_error heeded.keys regulations
  exact ⟨e, member, bad, listed, mt Regulation.isKnown_iff.mpr unknown, same⟩

/-- Which settings are valid, and that the readers of the overrides pass over no name in these. Those
without zeros in which no name would be passed over are all valid unless a regulation is not spelt as
its name; then it is reported as unknown, although its reader knows it. -/
theorem validate_exact (c : Config) :
    (c.validate = .ok () ↔ c.Positive ∧ c.scoring.Heeded ∧ c.scoring.Spelt) ∧
    (c.scoring.Heeded ↔ ∃ classes overrides, c.scoring.ReadAs classes overrides) ∧
    ((c.validate = .ok () ↔ c.Positive ∧ c.scoring.Heeded) ↔
      (c.Positive → c.scoring.Heeded → c.scoring.Spelt)) ∧
    (c.Positive → c.scoring.Heeded → ∀ fault, c.validate = .error fault →
      ∃ e ∈ c.scoring.regulation.entries, ∃ bad ∈ e.2,
        (∃ r, Regulation.ofName? bad = some r) ∧
        ¬ (∃ r : Regulation, Text.sameIgnoringCase bad r.name = true) ∧
        fault = unknownRegulation e.1 bad) := by
  have valid : c.validate = .ok () ↔ c.Positive ∧ c.scoring.Heeded ∧ c.scoring.Spelt :=
    validate_ok.trans valid_iff
  refine ⟨valid, ScoringConfig.heeded_iff, ?_, fun positive heeded fault failed => ?_⟩
  · rw [valid]
    constructor
    · intro same positive heeded
      exact (same.mpr ⟨positive, heeded⟩).2.2
    · intro spelt
      exact ⟨fun whole => ⟨whole.1, whole.2.1⟩,
        fun both => ⟨both.1, both.2, spelt both.1 both.2⟩⟩
  · obtain ⟨e, member, bad, listed, unspelt, same⟩ := validate_error positive heeded failed
    have read := Option.isSome_iff_exists.mp (heeded.regulations e member bad listed)
    exact ⟨e, member, bad, listed, read, unspelt, same⟩

def underscored : Config where
  scoring := { regulation := .ofList [("pii", ["pci_dss"])] }

theorem underscored_positive : underscored.Positive := ⟨nofun, nofun, nofun⟩

theorem underscored_heeded : underscored.scoring.Heeded where
  classes := nofun
  keys := by decide
  regulations := by decide

theorem underscored_error :
    underscored.validate = .error (unknownRegulation "pii" "pci_dss") := by decide

theorem validate_exact_underscored :
    underscored.Positive ∧ underscored.scoring.Heeded ∧
      ∃ e ∈ underscored.scoring.regulation.entries, ∃ bad ∈ e.2,
        (∃ r, Regulation.ofName? bad = some r) ∧
        ¬ (∃ r : Regulation, Text.sameIgnoringCase bad r.name = true) ∧
        unknownRegulation "pii" "pci_dss" = unknownRegulation e.1 bad :=
  ⟨underscored_positive, underscored_heeded, (validate_exact underscored).2.2.2
    underscored_positive underscored_heeded _ underscored_error⟩

/-- They are refused, though no name in them would be passed over. -/
theorem honored_spelling_refused : ¬ (underscored.validate = .ok () ↔
    underscored.Positive ∧ underscored.scoring.Heeded) := by
  intro same
  have accepted := same.mpr ⟨underscored_positive, underscored_heeded⟩
  rw [underscored_error] at accepted
  cases accepted

end Config

end DataReach
