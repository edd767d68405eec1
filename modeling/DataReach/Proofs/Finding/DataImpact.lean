import DataReach.Finding.Enrichment
import DataReach.Proofs.Extraction.Innermost
import DataReach.Proofs.Reach.Data
/-!
What the data impact of a finding says of a sensitive field. The fields are gathered from the names
that accesses list, and `*` where they list none; their operations and depths are then looked up by
name once more. There `*` means accesses without fields alone, so one that lists `*` as a field is
counted by the first step and missed by the second.
-/

namespace DataReach

namespace DataAccess

def names (a : DataAccess) : List String := if a.fields.isEmpty then [wholeTable] else a.fields

def CountsFor (a : DataAccess) (table field : String) : Prop := a.table = table ∧ field ∈ a.names

end DataAccess

/-- So many calls lead from a function to an access and no fewer do; the bound allows them. -/
def CallGraph.Accesses (g : CallGraph) (origin : FunctionNode) (maxDepth : Option Nat) (n : Nat)
    (a : DataAccess) : Prop :=
  ∃ h, g.CallDistance origin n h ∧ n ≤ maxDepth.getD depthLimit ∧ a ∈ h.dataAccess

/-- The operations and the depth of a field are those of some accesses: each operation once, in the
fixed order, and the least depth. The greatest depth there is stands for none, and is told as 0. -/
structure FieldImpact.Tells (i : FieldImpact) (counted : Nat → DataAccess → Prop) : Prop where
  some : i.operations ≠ []
  sorted : i.operations.Pairwise (·.rank < ·.rank)
  operations : ∀ o, o ∈ i.operations ↔ ∃ n a, counted n a ∧ a.operation = o
  depth : ∃ n, (∃ a, counted n a) ∧ (∀ m a, counted m a → n ≤ m) ∧
    i.depth = if n = depthLimit then 0 else n

/-! ### The fields that are reached -/

namespace Classifier

theorem classify_wholeTable (c : Classifier) : c.classify wholeTable = .unknown := by
  have blank : (Identifier.normalize wholeTable).isEmpty = true := by decide +kernel
  rw [classify, if_pos blank]

theorem classifyField_wholeTable (c : Classifier) (table : String) :
    c.classifyField table wholeTable = c.classify table := by
  rw [classifyField, classify_wholeTable]

end Classifier

theorem DataAccess.mem_classified {c : Classifier} {a : DataAccess} {s : SensitiveField} :
    s ∈ a.classified c ↔
      a.CountsFor s.table s.field ∧ s.sensitivity = c.classifyField s.table s.field := by
  obtain ⟨table, field, sensitivity⟩ := s
  rw [classified, CountsFor, names]
  split
  · simp only [List.mem_singleton, SensitiveField.mk.injEq]
    constructor
    · rintro ⟨rfl, rfl, rfl⟩
      exact ⟨⟨rfl, rfl⟩, (c.classifyField_wholeTable a.table).symm⟩
    · rintro ⟨⟨rfl, rfl⟩, same⟩
      exact ⟨rfl, rfl, same.trans (c.classifyField_wholeTable a.table)⟩
  · simp only [List.mem_map, SensitiveField.mk.injEq]
    constructor
    · rintro ⟨f, listed, rfl, rfl, rfl⟩
      exact ⟨⟨rfl, listed⟩, rfl⟩
    · rintro ⟨⟨rfl, listed⟩, same⟩
      exact ⟨field, listed, rfl, rfl, same.symm⟩

namespace Reach

variable {c : Classifier} {accesses : List ReachedAccess}

theorem mem_touches {t : SensitiveField × List PathNode} :
    t ∈ touches c accesses ↔ ∃ x ∈ accesses, x.access.CountsFor t.1.table t.1.field ∧
      t.1.sensitivity = c.classifyField t.1.table t.1.field ∧ t.1.sensitivity.isSensitive = true ∧
      t.2 = x.path := by
  obtain ⟨s, path⟩ := t
  simp only [touches, DataAccess.sensitive, List.mem_flatMap, List.mem_map, List.mem_filter,
    DataAccess.mem_classified, Prod.mk.injEq]
  constructor
  · rintro ⟨x, there, s, ⟨⟨counts, same⟩, sensitive⟩, rfl, rfl⟩
    exact ⟨x, there, counts, same, sensitive, rfl⟩
  · rintro ⟨x, there, counts, same, sensitive, rfl⟩
    exact ⟨x, there, s, ⟨⟨counts, same⟩, sensitive⟩, rfl, rfl⟩

/-- The fields that are told are those that a reached access counts for and whose class is known.
That one of several touches is kept for each table and name makes no difference to its class. -/
theorem mem_fieldsOf {s : SensitiveField} :
    (∃ r ∈ fieldsOf (touches c accesses), r.field = s) ↔
      (∃ x ∈ accesses, x.access.CountsFor s.table s.field) ∧
        s.sensitivity = c.classifyField s.table s.field ∧ s.sensitivity.isSensitive = true := by
  constructor
  · rintro ⟨r, listed, rfl⟩
    obtain ⟨kept, first, rfl⟩ := List.mem_map.mp listed
    have among := (distinctBy_sublist _ _).subset (List.mem_mergeSort.mp first)
    obtain ⟨t, touched, same⟩ := List.mem_map.mp among
    obtain ⟨x, there, counts, cls, sensitive, -⟩ := mem_touches.mp touched
    rw [same] at counts cls sensitive
    exact ⟨⟨x, there, counts⟩, cls, sensitive⟩
  · rintro ⟨⟨x, there, counts⟩, cls, sensitive⟩
    have touched : (s, x.path) ∈ touches c accesses :=
      mem_touches.mpr ⟨x, there, counts, cls, sensitive, rfl⟩
    have among : s ∈ (touches c accesses).map (·.1) := List.mem_map.mpr ⟨_, touched, rfl⟩
    obtain ⟨kept, first, key⟩ := List.mem_map.mp (key_mem_distinctBy SensitiveField.key among)
    have same : kept = s := by
      obtain ⟨t, own, rfl⟩ := List.mem_map.mp ((distinctBy_sublist _ _).subset first)
      obtain ⟨-, -, -, cls', -, -⟩ := mem_touches.mp own
      rw [SensitiveField.key, SensitiveField.key, Prod.mk.injEq] at key
      obtain ⟨table, field⟩ := key
      rw [table, field, ← cls] at cls'
      obtain ⟨⟨_, _, _⟩, _⟩ := t
      obtain ⟨_, _, _⟩ := s
      simp_all
    subst same
    exact ⟨_, List.mem_map.mpr ⟨kept, List.mem_mergeSort.mpr first, rfl⟩, rfl⟩

end Reach

/-! ### Operations and depths -/

namespace DataAccess

variable {a : DataAccess} {s : SensitiveField}

theorem touches_wholeTable (whole : s.field = wholeTable) :
    a.touches s = true ↔ a.table = s.table ∧ a.fields = [] := by
  simp [touches, whole]

theorem touches_named (named : s.field ≠ wholeTable) :
    a.touches s = true ↔ a.CountsFor s.table s.field := by
  rw [CountsFor, names]
  cases none : a.fields with
  | nil => simp [touches, named, none]
  | cons field rest => simp [touches, named, none]

/-- The two ways to match an access with a field differ for `*` in the list of fields only. -/
theorem touches_iff (unlisted : s.field = wholeTable → a.table = s.table → wholeTable ∉ a.fields) :
    a.touches s = true ↔ a.CountsFor s.table s.field := by
  by_cases whole : s.field = wholeTable
  · rw [touches_wholeTable whole, CountsFor, names, whole]
    refine and_congr_right fun table => ?_
    have absent := unlisted whole table
    cases none : a.fields with
    | nil => simp
    | cons field rest => simpa [none] using absent
  · exact touches_named whole

end DataAccess

namespace DataImpact

theorem leastDepth_nil : leastDepth [] = 0 := rfl

theorem leastDepth_cases {depths : List Nat} (some : depths ≠ []) :
    ∃ n ∈ depths, (∀ m ∈ depths, n ≤ m) ∧ leastDepth depths = if n = depthLimit then 0 else n := by
  cases least : depths.min? with
  | none => exact absurd (List.min?_eq_none_iff.mp least) some
  | some n =>
    obtain ⟨member, bound⟩ := List.min?_eq_some_iff.mp least
    refine ⟨n, member, bound, ?_⟩
    rw [leastDepth, least, Option.filter_some]
    by_cases greatest : n = depthLimit
    · simp [greatest]
    · simp [greatest]

variable {accesses : List ReachedAccess} {s : SensitiveField}

theorem mem_operations {o : Operation} :
    o ∈ (fieldImpact accesses s).operations ↔
      ∃ x ∈ accesses, x.access.touches s = true ∧ x.access.operation = o := by
  have all : o ∈ Operation.all := by cases o <;> decide
  simp only [fieldImpact, List.mem_filter, all, true_and, List.any_eq_true, beq_iff_eq, and_assoc]

theorem operations_sorted :
    (fieldImpact accesses s).operations.Pairwise (·.rank < ·.rank) := by
  have all : Operation.all.Pairwise (·.rank < ·.rank) := by decide
  exact all.sublist List.filter_sublist

theorem tells_touching {counted : Nat → DataAccess → Prop}
    (same : ∀ n a, counted n a ↔
      ∃ x ∈ accesses, x.access.touches s = true ∧ x.access = a ∧ x.depth = n)
    (some : ∃ n a, counted n a) : (fieldImpact accesses s).Tells counted where
  some := by
    obtain ⟨n, a, there⟩ := some
    obtain ⟨x, member, touches, -⟩ := (same n a).mp there
    exact List.ne_nil_of_mem (mem_operations.mpr ⟨x, member, touches, rfl⟩)
  sorted := operations_sorted
  operations := by
    intro o
    rw [mem_operations]
    constructor
    · rintro ⟨x, member, touches, rfl⟩
      exact ⟨x.depth, x.access, (same _ _).mpr ⟨x, member, touches, rfl, rfl⟩, rfl⟩
    · rintro ⟨n, a, there, rfl⟩
      obtain ⟨x, member, touches, rfl, -⟩ := (same n a).mp there
      exact ⟨x, member, touches, rfl⟩
  depth := by
    have depths : ∀ n, n ∈ (accesses.filter (·.access.touches s)).map (·.depth) ↔
        ∃ a, counted n a := by
      intro n
      simp only [List.mem_map, List.mem_filter, same]
      constructor
      · rintro ⟨x, ⟨member, touches⟩, rfl⟩
        exact ⟨x.access, x, member, touches, rfl, rfl⟩
      · rintro ⟨a, x, member, touches, -, rfl⟩
        exact ⟨x, ⟨member, touches⟩, rfl⟩
    obtain ⟨n, a, there⟩ := some
    have nonempty := List.ne_nil_of_mem ((depths n).mpr ⟨a, there⟩)
    obtain ⟨least, member, bound, told⟩ := leastDepth_cases nonempty
    refine ⟨least, (depths least).mp member, fun m b counts => ?_, told⟩
    exact bound m ((depths m).mpr ⟨b, counts⟩)

theorem fieldImpact_untouched (untouched : ∀ x ∈ accesses, x.access.touches s = false) :
    (fieldImpact accesses s).operations = [] ∧ (fieldImpact accesses s).depth = 0 := by
  have none : accesses.filter (·.access.touches s) = [] :=
    List.filter_eq_nil_iff.mpr fun x member => by simp [untouched x member]
  constructor
  · rw [fieldImpact, none]
    rfl
  · rw [fieldImpact, none, List.map_nil, leastDepth_nil]

end DataImpact

/-! ### Findings in a graph -/

section Located

variable {g : CallGraph} {c : Classifier} {regulations : RegulationMap} {maxDepth : Option Nat}
  {finding : Finding} {f : FunctionNode}

/-- A finding is located on every line that some function is around, unless this has all lines. -/
theorem exists_located_iff :
    (∃ f, innermost (g.inFile finding.file) finding.line = some f) ↔
      ∃ f ∈ g.inFile finding.file, f.Around finding.line ∧
        ¬ (f.startLine = 0 ∧ f.endLine = 0xFFFFFFFF) :=
  exists_innermost_iff

theorem mem_of_innermost {functions : List FunctionNode} {line : UInt32}
    (found : innermost functions line = some f) : f ∈ functions := by
  obtain ⟨i, -, there⟩ := Option.bind_eq_some_iff.mp found
  exact List.mem_of_getElem? there

theorem function?_of_located (located : innermost (g.inFile finding.file) finding.line = some f) :
    g.function? f.id = some f := by
  obtain ⟨id, -, found⟩ := List.mem_filterMap.mp (mem_of_innermost located)
  rwa [CallGraph.id_of_function? found]

theorem eval_ofFinding (located : innermost (g.inFile finding.file) finding.line = some f) :
    (EnrichedFinding.ofFinding c regulations maxDepth finding).eval g.answers =
      .assemble finding (some f.id)
        (.ofReach regulations ((Reach.forward c { maxDepth } f.id).eval g.answers))
        (.ofImpact finding (f.span + 1) ((Impact.ofFunction c maxDepth f.id).eval g.answers))
        ((Impact.ofFunction c maxDepth f.id).eval g.answers).risk := by
  have built : g.functions.isEmpty = false := by
    have present := function?_of_located located
    simp [List.ne_nil_of_mem (Dict.mem_of_get? present)]
  simp [EnrichedFinding.ofFinding, Inquiry.missing?, CallGraph.answers, built, located]

theorem mem_accesses_forward (present : g.function? f.id = some f) {n : Nat} {a : DataAccess} :
    (∃ x ∈ ((Reach.forward c { maxDepth } f.id).eval g.answers).accesses,
        x.access = a ∧ x.depth = n) ↔ g.Accesses f maxDepth n a := by
  have covers := (Forward.covers_visits present maxDepth).1
  rw [Reach.eval_forward g c { maxDepth } present, Reach.accesses_ofVisits]
  constructor
  · rintro ⟨x, listed, rfl, rfl⟩
    obtain ⟨v, visited, own⟩ := List.mem_flatMap.mp listed
    obtain ⟨a, member, rfl⟩ := List.mem_map.mp own
    obtain ⟨-, within, distance⟩ := covers.sound v visited
    exact ⟨v.node, distance, within, member⟩
  · rintro ⟨h, distance, within, member⟩
    obtain ⟨v, visited, rfl, rfl⟩ := (covers_mem_iff covers n h).mpr
      ⟨distance, Nat.zero_le n, within⟩
    exact ⟨_, List.mem_flatMap.mpr ⟨v, visited, List.mem_map_of_mem member⟩, rfl, rfl⟩

theorem mem_sensitiveFields (present : g.function? f.id = some f) {s : SensitiveField} :
    (∃ r ∈ ((Reach.forward c { maxDepth } f.id).eval g.answers).sensitiveFields, r.field = s) ↔
      (∃ n a, g.Accesses f maxDepth n a ∧ a.CountsFor s.table s.field) ∧
        s.sensitivity = c.classifyField s.table s.field ∧ s.sensitivity.isSensitive = true := by
  have fields : ((Reach.forward c { maxDepth } f.id).eval g.answers).sensitiveFields =
      Reach.fieldsOf (Reach.touches c
        ((Reach.forward c { maxDepth } f.id).eval g.answers).accesses) := by
    rw [Reach.eval_forward g c { maxDepth } present]
    rfl
  rw [fields, Reach.mem_fieldsOf]
  refine and_congr_left fun _ => ?_
  constructor
  · rintro ⟨x, listed, counts⟩
    exact ⟨x.depth, x.access, (mem_accesses_forward present).mp ⟨x, listed, rfl, rfl⟩, counts⟩
  · rintro ⟨n, a, reached, counts⟩
    obtain ⟨x, listed, rfl, -⟩ := (mem_accesses_forward (c := c) present).mpr reached
    exact ⟨x, listed, counts⟩

theorem dataImpact_fields (located : innermost (g.inFile finding.file) finding.line = some f) :
    ((EnrichedFinding.ofFinding c regulations maxDepth finding).eval g.answers).dataImpact.fields =
      ((Reach.forward c { maxDepth } f.id).eval g.answers).sensitiveFields.map fun r =>
        DataImpact.fieldImpact ((Reach.forward c { maxDepth } f.id).eval g.answers).accesses
          r.field := by
  rw [eval_ofFinding located]
  rfl

theorem tells_forward (present : g.function? f.id = some f) {s : SensitiveField}
    {counts : DataAccess → Prop}
    (same : ∀ n a, g.Accesses f maxDepth n a → (a.touches s = true ↔ counts a))
    (some : ∃ n a, g.Accesses f maxDepth n a ∧ counts a) :
    (DataImpact.fieldImpact ((Reach.forward c { maxDepth } f.id).eval g.answers).accesses s).Tells
      fun n a => g.Accesses f maxDepth n a ∧ counts a := by
  apply DataImpact.tells_touching _ some
  intro n a
  constructor
  · rintro ⟨reached, counted⟩
    obtain ⟨x, listed, rfl, rfl⟩ := (mem_accesses_forward (c := c) present).mpr reached
    exact ⟨x, listed, (same _ _ reached).mpr counted, rfl, rfl⟩
  · rintro ⟨x, listed, touched, rfl, rfl⟩
    have reached := (mem_accesses_forward present).mp ⟨x, listed, rfl, rfl⟩
    exact ⟨reached, (same _ _ reached).mp touched⟩

/-- A field in the data impact of a finding was reached by an access that counts for it. Its
operations and its depth are those of all such accesses, unless it is the table as a whole and one
of them lists `*` by name; those of a table as a whole are always those of the accesses without
fields, and nothing where there are none. -/
theorem field_impact_exact (g : CallGraph) (c : Classifier) (regulations : RegulationMap)
    (maxDepth : Option Nat) (finding : Finding) {f : FunctionNode}
    (located : innermost (g.inFile finding.file) finding.line = some f) :
    ∀ i ∈ ((EnrichedFinding.ofFinding c regulations maxDepth finding).eval
        g.answers).dataImpact.fields,
      (∃ n a, g.Accesses f maxDepth n a ∧ a.CountsFor i.table i.field) ∧
      ((i.field = wholeTable →
          ∀ n a, g.Accesses f maxDepth n a → a.table = i.table → wholeTable ∉ a.fields) →
        i.Tells fun n a => g.Accesses f maxDepth n a ∧ a.CountsFor i.table i.field) ∧
      (i.field = wholeTable →
        (i.Tells fun n a => g.Accesses f maxDepth n a ∧ a.table = i.table ∧ a.fields = []) ∨
        ((∀ n a, g.Accesses f maxDepth n a → a.table = i.table → a.fields ≠ []) ∧
          i.operations = [] ∧ i.depth = 0)) := by
  have present := function?_of_located located
  intro i member
  rw [dataImpact_fields located] at member
  obtain ⟨r, listed, rfl⟩ := List.mem_map.mp member
  obtain ⟨reached, -, -⟩ := (mem_sensitiveFields present).mp ⟨r, listed, rfl⟩
  refine ⟨reached, fun unlisted => ?_, fun whole => ?_⟩
  · apply tells_forward present _ reached
    intro n a accessed
    exact DataAccess.touches_iff fun whole => unlisted whole n a accessed
  · have touches : ∀ a : DataAccess, a.touches r.field = true ↔
        a.table = r.field.table ∧ a.fields = [] := fun a => DataAccess.touches_wholeTable whole
    by_cases some : ∃ n a, g.Accesses f maxDepth n a ∧ a.table = r.field.table ∧ a.fields = []
    · exact .inl (tells_forward present (fun n a _ => touches a) some)
    · push Not at some
      refine .inr ⟨some, DataImpact.fieldImpact_untouched fun x listed => ?_⟩
      have reached := (mem_accesses_forward present).mp ⟨x, listed, rfl, rfl⟩
      rw [Bool.eq_false_iff, Ne, touches]
      rintro ⟨table, none⟩
      exact some _ _ reached table none

end Located

def purgeAll : DataAccess := ⟨"payments", .delete, 13, ["*", "card_number"]⟩

def purge : FunctionNode where
  id := "a.py:purge:11"
  name := "purge"
  qualifiedName := "purge"
  file := "a.py"
  startLine := 11
  endLine := 19
  isEntryPoint := false
  isDataAccessor := true
  calls := []
  calledBy := [⟨"a.py:close:1", 3⟩]
  dataAccess := [purgeAll]

def close : FunctionNode where
  id := "a.py:close:1"
  name := "close"
  qualifiedName := "close"
  file := "a.py"
  startLine := 1
  endLine := 9
  isEntryPoint := true
  isDataAccessor := false
  calls := [⟨"purge", true, some "a.py:purge:11", 0.9, 3⟩]
  calledBy := []
  dataAccess := []

def closeGraph : CallGraph := .ofShards [⟨"a.py", [close, purge]⟩]

def closeFinding : Finding where
  id := "F1"
  file := "a.py"
  line := 5
  severity := .high
  category := .injection

theorem closeFinding_located :
    innermost (closeGraph.inFile closeFinding.file) closeFinding.line = some close := rfl

theorem closeGraph_accesses {n : Nat} {a : DataAccess} :
    closeGraph.Accesses close none n a ↔ n = 1 ∧ a = purgeAll := by
  have told : ((Reach.forward .standard {} close.id).eval closeGraph.answers).accesses.map
      (fun x => (x.depth, x.access)) = [(1, purgeAll)] := by decide +kernel
  rw [← mem_accesses_forward (c := .standard) (function?_of_located closeFinding_located)]
  have member : (∃ x ∈ ((Reach.forward .standard {} close.id).eval closeGraph.answers).accesses,
      x.access = a ∧ x.depth = n) ↔ (n, a) ∈ [(1, purgeAll)] := by
    simp [← told, and_comm]
  simpa using member

theorem closeFinding_field (field : String) {i : FieldImpact} (listed : field ∈ purgeAll.fields)
    (told : DataImpact.fieldImpact ((Reach.forward .standard {} close.id).eval
      closeGraph.answers).accesses ⟨"payments", field, .financial⟩ = i)
    (financial : Classifier.standard.classifyField "payments" field = .financial) :
    i ∈ ((EnrichedFinding.ofFinding .standard .standard none closeFinding).eval
      closeGraph.answers).dataImpact.fields := by
  have reached := closeGraph_accesses.mpr ⟨rfl, rfl⟩
  obtain ⟨r, member, same⟩ :=
    (mem_sensitiveFields (c := .standard) (s := ⟨"payments", field, .financial⟩)
      (function?_of_located closeFinding_located)).mpr
      ⟨⟨1, purgeAll, reached, rfl, listed⟩, financial.symm, rfl⟩
  rw [dataImpact_fields closeFinding_located, ← told, ← same]
  exact List.mem_map_of_mem member

theorem card_number_told :
    let i : FieldImpact := ⟨"payments", "card_number", .financial, [.delete], 1⟩
    i ∈ ((EnrichedFinding.ofFinding .standard .standard none closeFinding).eval
        closeGraph.answers).dataImpact.fields ∧
      i.Tells fun n a => closeGraph.Accesses close none n a ∧ a.CountsFor i.table i.field := by
  intro i
  have member := closeFinding_field "card_number" (i := i) (by decide)
    (by decide +kernel) (by decide +kernel)
  have named : i.field ≠ wholeTable := by decide
  exact ⟨member, (field_impact_exact closeGraph .standard .standard none closeFinding
    closeFinding_located i member).2.1 fun whole => absurd whole named⟩

/-- The rows are deleted one call away under the name `*`, yet no operation is told, and depth 0. -/
theorem listed_star_untold :
    let i : FieldImpact := ⟨"payments", "*", .financial, [], 0⟩
    i ∈ ((EnrichedFinding.ofFinding .standard .standard none closeFinding).eval
        closeGraph.answers).dataImpact.fields ∧
      (∀ n a, closeGraph.Accesses close none n a ∧ a.CountsFor i.table i.field ↔
        n = 1 ∧ a = purgeAll) ∧
      purgeAll.operation ∉ i.operations ∧ i.depth ≠ 1 := by
  intro i
  refine ⟨closeFinding_field "*" (by decide) (by decide +kernel) (by decide +kernel),
    fun n a => ?_, by decide, by decide⟩
  rw [closeGraph_accesses]
  constructor
  · rintro ⟨only, -⟩
    exact only
  · rintro ⟨rfl, rfl⟩
    exact ⟨⟨rfl, rfl⟩, rfl, by decide⟩

end DataReach
