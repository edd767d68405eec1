import DataReach.Proofs.Derived.Survey
import DataReach.Proofs.Finding.DataImpact
/-!
What the options of a search leave out. The tables are looked at while the search goes on and the
classes when it is over, but neither has a say in where the search goes: the report is that of the
search without them, less some accesses. That whole accesses are left out by their class makes no
difference to the fields, since an access is as sensitive as the most sensitive of its names.
-/

namespace DataReach

/-! ### The most severe class -/

namespace Sensitivity

/-- The class is among some and none of them is more severe; without any it is unknown. -/
def Severest (classes : List Sensitivity) (s : Sensitivity) : Prop :=
  (∀ t ∈ classes, t.severity ≤ s.severity) ∧ (s ∈ classes ∨ classes = [] ∧ s = .unknown)

theorem eq_of_severity {s t : Sensitivity} (same : s.severity = t.severity) : s = t := by
  revert same
  cases s <;> cases t <;> decide

theorem severity_eq_zero_iff {s : Sensitivity} : s.severity = 0 ↔ s = .unknown := by
  cases s <;> simp [severity]

theorem worse_unknown (s : Sensitivity) : worse .unknown s = s := by
  cases s <;> rfl

theorem worse_cases (s t : Sensitivity) : (worse s t = s ∨ worse s t = t) ∧
    s.severity ≤ (worse s t).severity ∧ t.severity ≤ (worse s t).severity := by
  rw [worse]
  split
  · next more => exact ⟨.inl rfl, Nat.le_refl _, Nat.le_of_lt more⟩
  · next less => exact ⟨.inr rfl, Nat.le_of_not_lt less, Nat.le_refl _⟩

theorem foldl_worse (s : Sensitivity) (classes : List Sensitivity) :
    classes.foldl worse s ∈ s :: classes ∧
      ∀ t ∈ s :: classes, t.severity ≤ (classes.foldl worse s).severity := by
  induction classes generalizing s with
  | nil => simp
  | cons first rest ih =>
    obtain ⟨member, bound⟩ := ih (worse s first)
    obtain ⟨either, left, right⟩ := worse_cases s first
    have top := bound _ (List.mem_cons_self ..)
    rw [List.foldl_cons]
    constructor
    · rcases List.mem_cons.mp member with same | later
      · rw [same]
        rcases either with one | other
        · simp [one]
        · simp [other]
      · exact List.mem_cons_of_mem _ (List.mem_cons_of_mem _ later)
    · intro t inside
      rcases List.mem_cons.mp inside with rfl | inside
      · exact Nat.le_trans left top
      · rcases List.mem_cons.mp inside with rfl | later
        · exact Nat.le_trans right top
        · exact bound t (List.mem_cons_of_mem _ later)

theorem severest_worst (classes : List Sensitivity) : Severest classes (worst classes) := by
  cases classes with
  | nil => exact ⟨by simp, .inr ⟨rfl, rfl⟩⟩
  | cons first rest =>
    obtain ⟨member, bound⟩ := foldl_worse first rest
    rw [worst, List.foldl_cons, worse_unknown]
    exact ⟨bound, .inl member⟩

end Sensitivity

open Sensitivity (Severest)

theorem Classifier.severest_classifyAccess (c : Classifier) (a : DataAccess) :
    Severest (a.names.map (c.classifyField a.table)) (c.classifyAccess a) := by
  rw [classifyAccess, DataAccess.names]
  split
  · rw [List.map_singleton, classifyField_wholeTable]
    exact ⟨by simp, .inl (List.mem_singleton_self _)⟩
  · exact Sensitivity.severest_worst _

theorem DataAccess.names_ne_nil (a : DataAccess) : a.names ≠ [] := by
  rw [names]
  cases none : a.fields with
  | nil => simp
  | cons field rest => simp

namespace Reach

variable {c : Classifier} {accesses : List ReachedAccess} {x : ReachedAccess}

/-! ### Fields -/

theorem sensitive_eq_nil {a : DataAccess} (unknown : c.classifyAccess a = .unknown) :
    a.sensitive c = [] := by
  refine List.filter_eq_nil_iff.mpr fun s classified => ?_
  obtain ⟨⟨table, named⟩, cls⟩ := DataAccess.mem_classified.mp classified
  have bound := (c.severest_classifyAccess a).1 _ (List.mem_map_of_mem named)
  rw [unknown, table, ← cls] at bound
  have zero : s.sensitivity.severity = 0 := Nat.le_zero.mp bound
  simp [Sensitivity.severity_eq_zero_iff.mp zero, Sensitivity.isSensitive]

theorem touches_filter (c : Classifier) (accesses : List ReachedAccess) :
    touches c (accesses.filter fun a => (c.classifyAccess a.access).isSensitive) =
      touches c accesses := by
  induction accesses with
  | nil => rfl
  | cons x rest ih =>
    have cons : ∀ others : List ReachedAccess, touches c (x :: others) =
        (x.access.sensitive c).map (·, x.path) ++ touches c others := fun _ => rfl
    by_cases kept : (c.classifyAccess x.access).isSensitive = true
    · rw [List.filter_cons, if_pos kept, cons, cons, ih]
    · have unknown : c.classifyAccess x.access = .unknown := by
        simpa [Sensitivity.isSensitive] using kept
      rw [List.filter_cons, if_neg kept, ih, cons, sensitive_eq_nil unknown]
      rfl

/-- The fields of some accesses are as severe as the accesses, though they are classified one by
one, and several accesses have a field in common. -/
theorem severest_fieldsOf : Severest (accesses.map fun x => c.classifyAccess x.access)
    (Sensitivity.worst ((fieldsOf (touches c accesses)).map (·.field.sensitivity))) := by
  obtain ⟨bound, among⟩ :=
    Sensitivity.severest_worst ((fieldsOf (touches c accesses)).map (·.field.sensitivity))
  generalize Sensitivity.worst _ = worst at bound among
  have above : ∀ x ∈ accesses, (c.classifyAccess x.access).severity ≤ worst.severity := by
    intro x member
    by_cases unknown : c.classifyAccess x.access = .unknown
    · rw [unknown]
      exact Nat.zero_le _
    · obtain ⟨name, named, cls⟩ : ∃ name ∈ x.access.names,
          c.classifyField x.access.table name = c.classifyAccess x.access := by
        rcases (c.severest_classifyAccess x.access).2 with inside | ⟨none, -⟩
        · exact List.mem_map.mp inside
        · exact absurd (List.map_eq_nil_iff.mp none) x.access.names_ne_nil
      have sensitive : (c.classifyAccess x.access).isSensitive = true := by
        simpa [Sensitivity.isSensitive] using unknown
      obtain ⟨r, listed, field⟩ :=
        (mem_fieldsOf (s := ⟨x.access.table, name, c.classifyAccess x.access⟩)).mpr
          ⟨⟨x, member, rfl, named⟩, cls.symm, sensitive⟩
      have below := bound _ (List.mem_map_of_mem listed)
      rwa [field] at below
  refine ⟨fun t member => ?_, ?_⟩
  · obtain ⟨x, inside, rfl⟩ := List.mem_map.mp member
    exact above x inside
  · cases accesses with
    | nil => exact .inr ⟨rfl, by simpa [touches, fieldsOf, distinctBy] using among⟩
    | cons first rest =>
      refine .inl (List.mem_map.mpr ?_)
      rcases among with inside | ⟨-, unknown⟩
      · obtain ⟨r, listed, cls⟩ := List.mem_map.mp inside
        obtain ⟨⟨x, member, table, named⟩, own, -⟩ := mem_fieldsOf.mp ⟨r, listed, rfl⟩
        refine ⟨x, member, Sensitivity.eq_of_severity (Nat.le_antisymm (above x member) ?_)⟩
        have below := (c.severest_classifyAccess x.access).1 _ (List.mem_map_of_mem named)
        rwa [table, ← own, cls] at below
      · have least := above first (List.mem_cons_self ..)
        rw [unknown] at least
        exact ⟨first, List.mem_cons_self .., unknown ▸
          Sensitivity.severity_eq_zero_iff.mp (Nat.le_zero.mp least)⟩

/-! ### Accesses -/

/-- The options admit an access: its table is one of those asked for, if any are, and its class is
known, if it has to be. -/
def Admits (c : Classifier) (o : ReachOptions) (a : DataAccess) : Prop :=
  (o.tables = [] ∨ a.table ∈ o.tables) ∧
    (o.sensitiveOnly = true → c.classifyAccess a ≠ .unknown)

instance (c : Classifier) (o : ReachOptions) (a : DataAccess) : Decidable (Admits c o a) :=
  inferInstanceAs (Decidable (_ ∧ _))

theorem admits_iff {o : ReachOptions} {table : String} :
    o.admits table = true ↔ o.tables = [] ∨ table ∈ o.tables := by
  simp [ReachOptions.admits]

theorem accesses_visit (v : Visit) (o : ReachOptions) :
    v.accesses o = (v.accesses {}).filter fun a => o.admits a.access.table := by
  have all : ∀ table, ReachOptions.admits {} table = true := fun _ => rfl
  simp [Visit.accesses, List.filter_map, all, Function.comp_def]

theorem accesses_filtered (c : Classifier) (o : ReachOptions) (origin : CodeLocation)
    (visits : List Visit) :
    (ofVisits c o origin visits).accesses =
      (ofVisits c { maxDepth := o.maxDepth } origin visits).accesses.filter
        fun a => decide (Admits c o a.access) := by
  have tables : visits.flatMap (·.accesses o) =
      (visits.flatMap (·.accesses {})).filter fun a => o.admits a.access.table := by
    rw [List.filter_flatMap]
    exact List.flatMap_congr fun v _ => accesses_visit v o
  have all : (ofVisits c { maxDepth := o.maxDepth } origin visits).accesses =
      visits.flatMap (·.accesses {}) := rfl
  rw [all]
  cases only : o.sensitiveOnly with
  | false =>
    have kept : (ofVisits c o origin visits).accesses = visits.flatMap (·.accesses o) := by
      simp [ofVisits, only]
    rw [kept, tables]
    refine List.filter_congr fun a _ => ?_
    rw [Bool.eq_iff_iff]
    simp [Admits, admits_iff, only]
  | true =>
    have kept : (ofVisits c o origin visits).accesses = (visits.flatMap (·.accesses o)).filter
        fun a => (c.classifyAccess a.access).isSensitive := by
      simp [ofVisits, only]
    rw [kept, tables, List.filter_filter]
    refine List.filter_congr fun a _ => ?_
    rw [Bool.eq_iff_iff]
    simp [Admits, admits_iff, only, Sensitivity.isSensitive, and_comm]

theorem sensitiveFields_ofVisits (c : Classifier) (o : ReachOptions) (origin : CodeLocation)
    (visits : List Visit) :
    (ofVisits c o origin visits).sensitiveFields =
      fieldsOf (touches c (visits.flatMap (·.accesses o))) := by
  simp only [ofVisits]
  split
  · rw [touches_filter]
  · rfl

/-! ### Reports -/

/-- The options do nothing to a report but take accesses out of it, and what is told of these. -/
structure Filtered (c : Classifier) (o : ReachOptions) (report : ReachOptions → Reach) : Prop where
  accesses : (report o).accesses = (report { maxDepth := o.maxDepth }).accesses.filter
    fun a => decide (Admits c o a.access)
  origin : (report o).origin = (report { maxDepth := o.maxDepth }).origin
  traversed : (report o).functionsTraversed = (report { maxDepth := o.maxDepth }).functionsTraversed
  deepest : (report o).maxDepthReached = (report { maxDepth := o.maxDepth }).maxDepthReached
  unresolved : (report o).unresolvedCalls = (report { maxDepth := o.maxDepth }).unresolvedCalls
  graphMissing : (report o).graphMissing = (report { maxDepth := o.maxDepth }).graphMissing
  ascending : (report o).tables.Pairwise (· < ·)
  mem_tables : ∀ table, table ∈ (report o).tables ↔ ∃ a ∈ (report o).accesses, a.access.table = table
  fields : (report { o with sensitiveOnly := true }).sensitiveFields =
    (report { o with sensitiveOnly := false }).sensitiveFields
  severest : Severest ((report o).accesses.map fun a => c.classifyAccess a.access)
    (report o).maxSensitivity

theorem filtered_ofVisits (c : Classifier) (o : ReachOptions) (origin : CodeLocation)
    (visits : List Visit) : Filtered c o fun o => ofVisits c o origin visits where
  accesses := accesses_filtered c o origin visits
  origin := rfl
  traversed := rfl
  deepest := rfl
  unresolved := rfl
  graphMissing := rfl
  ascending := ascending_sorted _
  mem_tables := by
    intro table
    have listed : (ofVisits c o origin visits).tables =
        DataReach.ascending ((ofVisits c o origin visits).accesses.map (·.access.table)) := rfl
    rw [listed, mem_ascending, List.mem_map]
  fields := by rw [sensitiveFields_ofVisits, sensitiveFields_ofVisits]; rfl
  severest := severest_fieldsOf

theorem filtered_nothing (c : Classifier) (o : ReachOptions) (origin : CodeLocation)
    (graphMissing : Option GraphError) : Filtered c o fun _ => { origin, graphMissing } where
  accesses := rfl
  origin := rfl
  traversed := rfl
  deepest := rfl
  unresolved := rfl
  graphMissing := rfl
  ascending := .nil
  mem_tables := by simp
  fields := rfl
  severest := Sensitivity.severest_worst []

theorem filtered_congr {c : Classifier} {o : ReachOptions} {report other : ReachOptions → Reach}
    (filtered : Filtered c o report)
    (same : ∀ o' : ReachOptions, o'.maxDepth = o.maxDepth → other o' = report o') :
    Filtered c o other := by
  obtain ⟨accesses, origin, traversed, deepest, unresolved, missing, ascending, tables, fields,
    severest⟩ := filtered
  have own := same o rfl
  have plain := same { maxDepth := o.maxDepth } rfl
  have without := same { o with sensitiveOnly := false } rfl
  have only := same { o with sensitiveOnly := true } rfl
  constructor
  all_goals
    simp only [own, plain, without, only]
    assumption

theorem filtered_forward (g : CallGraph) (c : Classifier) (o : ReachOptions) (id : String) :
    Filtered c o fun o => (forward c o id).eval g.answers := by
  cases found : g.function? id with
  | none =>
    refine filtered_congr (filtered_nothing c o { functionId := some id } none) fun o' _ => ?_
    simp [forward, CallGraph.answers, found]
  | some f =>
    refine filtered_congr (filtered_ofVisits c o ⟨f.file, f.startLine, some f.id⟩
      ((Forward.visits f o.maxDepth).eval g.answers)) fun o' depth => ?_
    rw [eval_forward g c o' found, depth]

/-- The options of a forward search, from any function or line of any graph, are filters of what the
search finds without them. -/
theorem options_filter (g : CallGraph) (c : Classifier) (o : ReachOptions) :
    (∀ id, Filtered c o fun o => (fromFunction c o id).eval g.answers) ∧
      ∀ file line, Filtered c o fun o => (fromLine c o file line).eval g.answers := by
  constructor
  · intro id
    simp only [eval_fromFunction]
    by_cases empty : g.functions.isEmpty = true
    · simp only [empty, if_true]
      exact filtered_nothing c o _ _
    · simp only [empty]
      exact filtered_forward g c o id
  · intro file line
    simp only [eval_fromLine]
    by_cases empty : g.functions.isEmpty = true
    · simp only [empty, if_true]
      exact filtered_nothing c o _ _
    · simp only [empty]
      cases innermost (g.inFile file) line with
      | none => exact filtered_nothing c o _ none
      | some f => exact filtered_forward g c o f.id

end Reach

end DataReach
