import DataReach.Finding.Enrichment
import DataReach.Proofs.Plain
import DataReach.Proofs.Totals
import DataReach.Reach.Inverse
/-!
No analysis depends on the confidences of calls. The searches carry functions along, so each of them
is followed with the functions that it has met so far.
-/

namespace DataReach

open Inquiry

variable {known : String → Prop}

@[simp] theorem PathNode.ofFunction_plain (f : FunctionNode) : ofFunction f.plain = ofFunction f :=
  rfl

/-! ### Forward -/

@[simps]
def Visit.plain (v : Visit) : Visit := { v with node := v.node.plain }

@[simp] theorem Visit.calls_plain (v : Visit) : v.plain.calls = v.calls := by
  simp [calls]

namespace Forward

theorem follow_shadows (depth : Nat) (pending : List (String × List PathNode)) :
    Shadows known (List.map Visit.plain) (follow depth pending) (follow depth pending) := by
  induction pending with
  | nil => exact shadows_pure rfl
  | cons entry rest ih =>
    rw [follow]
    refine shadows_bind (shadows_function entry.1) fun found => ?_
    refine shadows_bind ih fun others => shadows_pure ?_
    cases found <;> rfl

theorem levels_shadows (left depth : Nat) (seen : List String) (level : List Visit) :
    Shadows known (List.map Visit.plain) (levels left depth seen level)
      (levels left depth seen (level.map Visit.plain)) := by
  induction left generalizing depth seen level with
  | zero =>
    cases level with
    | nil => exact shadows_pure rfl
    | cons v rest => exact shadows_pure rfl
  | succ left ih =>
    cases level with
    | nil => exact shadows_pure rfl
    | cons v rest =>
      have calls : ((v :: rest).map Visit.plain).flatMap Visit.calls =
          (v :: rest).flatMap Visit.calls := by
        simp [List.flatMap_map]
      rw [levels, List.map_cons, levels, ← List.map_cons, calls]
      · refine shadows_bind (follow_shadows _ _) fun next => ?_
        refine shadows_bind (ih _ _ next) fun others => shadows_pure ?_
        rw [List.map_append]
      · nofun
      · nofun

theorem visits_shadows (origin : FunctionNode) (maxDepth : Option Nat) :
    Shadows known (List.map Visit.plain) (visits origin maxDepth) (visits origin.plain maxDepth) :=
  levels_shadows _ 0 [origin.id] [.origin origin]

end Forward

namespace Reach

theorem ofVisits_plain (c : Classifier) (o : ReachOptions) (origin : CodeLocation)
    (visits : List Visit) :
    ofVisits c o origin (visits.map Visit.plain) = ofVisits c o origin visits := by
  have accesses : (visits.map Visit.plain).flatMap (·.accesses o) =
      visits.flatMap (·.accesses o) := by
    rw [List.flatMap_map]
    rfl
  have depths : (visits.map Visit.plain).map (·.depth) = visits.map (·.depth) := by
    rw [List.map_map]
    rfl
  have traversed : wordTotal (fun _ => 1) (visits.map Visit.plain) = wordTotal (fun _ => 1) visits :=
    wordTotal_map ..
  have unresolved : wordTotal (·.node.unresolvedCalls) (visits.map Visit.plain) =
      wordTotal (·.node.unresolvedCalls) visits := by
    simp [wordTotal_map]
  rw [ofVisits, ofVisits, accesses, depths, traversed, unresolved]

theorem forward_blind (c : Classifier) (o : ReachOptions) (id : String) :
    Blind known (forward c o id) := by
  refine shadows_bind (shadows_function id) fun found => ?_
  cases found with
  | none => exact shadows_pure rfl
  | some f =>
    refine shadows_bind (Forward.visits_shadows f o.maxDepth) fun visits => shadows_pure ?_
    exact ofVisits_plain c o _ visits

theorem fromFunction_blind (c : Classifier) (o : ReachOptions) (id : String) :
    Blind known (fromFunction c o id) :=
  shadows_missing (forward_blind c o id)

theorem fromLine_blind (c : Classifier) (o : ReachOptions) {file : String} (fair : known file)
    (line : UInt32) : Blind known (fromLine c o file line) := by
  refine shadows_missing (shadows_bind (shadows_inFile fair) fun found => ?_)
  rw [innermost_plain]
  cases innermost found line with
  | none => exact shadows_pure rfl
  | some f => exact forward_blind c o f.id

theorem pathsTo_blind (c : Classifier) {file : String} (fair : known file) (line : UInt32)
    (table : String) (field : Option String) : Blind known (pathsTo c file line table field) :=
  shadows_bind (fromLine_blind c _ fair line) fun _ => shadows_pure rfl

end Reach

/-! ### Backward -/

@[simps]
def Climb.plain (c : Climb) : Climb :=
  { c with found := c.found.map (Prod.map FunctionNode.plain id) }

namespace Backward

theorem depth_plain (depth : Nat) (level : List FunctionNode) :
    (level.map FunctionNode.plain).map (·, depth) =
      (level.map (·, depth)).map (Prod.map FunctionNode.plain id) := by
  simp [List.map_map, Function.comp_def]

theorem callers_shadows (f : FunctionNode) (links : Links) (refs : List CallerRef) :
    Shadows known (Prod.map id (List.map FunctionNode.plain)) (callers f links refs)
      (callers f.plain links refs) := by
  induction refs generalizing links with
  | nil => exact shadows_pure rfl
  | cons r rest ih =>
    rw [callers, callers]
    split
    · exact ih links
    · refine shadows_bind (shadows_function r.callerId) fun found => ?_
      cases found with
      | none => exact ih links
      | some g => exact shadows_bind (ih _) fun _ => shadows_pure rfl

section Stop

variable {stop : FunctionNode → Bool} (blind : ∀ f, stop f.plain = stop f)

include blind

theorem callersOfAll_shadows (links : Links) (level : List FunctionNode) :
    Shadows known (Prod.map id (List.map FunctionNode.plain)) (callersOfAll stop links level)
      (callersOfAll stop links (level.map FunctionNode.plain)) := by
  induction level generalizing links with
  | nil => exact shadows_pure rfl
  | cons f rest ih =>
    rw [callersOfAll, List.map_cons, callersOfAll, blind]
    split
    · exact ih links
    · refine shadows_bind (callers_shadows f links f.calledBy) fun first => ?_
      refine shadows_bind (ih first.1) fun others => shadows_pure ?_
      simp

theorem levels_shadows (left depth : Nat) (links : Links) (level : List FunctionNode) :
    Shadows known Climb.plain (levels stop left depth links level)
      (levels stop left depth links (level.map FunctionNode.plain)) := by
  induction left generalizing depth links level with
  | zero =>
    cases level with
    | nil => exact shadows_pure rfl
    | cons f rest => exact shadows_pure (congrArg (Climb.mk links) (depth_plain depth _))
  | succ left ih =>
    cases level with
    | nil => exact shadows_pure rfl
    | cons f rest =>
      have cons : (f :: rest).map FunctionNode.plain = f.plain :: rest.map FunctionNode.plain := rfl
      rw [cons, levels, levels]
      · refine shadows_bind (callersOfAll_shadows blind links (f :: rest)) fun next => ?_
        refine shadows_bind (ih (depth + 1) next.1 next.2) fun others => shadows_pure ?_
        rw [← cons, depth_plain]
        simp only [Climb.plain, List.map_append]
      · nofun
      · nofun

theorem climb_shadows (seeds : List FunctionNode) (maxDepth : Option Nat) :
    Shadows known Climb.plain (climb stop seeds maxDepth)
      (climb stop (seeds.map FunctionNode.plain) maxDepth) := by
  have links : Links.ofSeeds (seeds.map FunctionNode.plain) = Links.ofSeeds seeds := by
    rw [Links.ofSeeds, List.foldl_map]
    rfl
  rw [climb, climb, links]
  exact levels_shadows blind _ 0 _ seeds

end Stop

end Backward

namespace InverseReach

theorem add_plain (progress : InverseProgress) (f : FunctionNode) (access : DataAccess)
    (c : Climb) : progress.add f.plain access c.plain = progress.add f access c := by
  have entries : (c.found.map (Prod.map FunctionNode.plain id)).filter (·.1.isEntryPoint) =
      (c.found.filter (·.1.isEntryPoint)).map (Prod.map FunctionNode.plain id) := by
    rw [List.filter_map]
    rfl
  simp only [InverseProgress.add, Climb.plain, entries, List.map_map]
  rfl

theorem searches_blind (table : String) (field : Option String) (maxDepth : Option Nat)
    (progress : InverseProgress) (accessors : List FunctionNode) :
    Shadows known id (searches table field maxDepth progress accessors)
      (searches table field maxDepth progress (accessors.map FunctionNode.plain)) := by
  induction accessors generalizing progress with
  | nil => exact shadows_pure rfl
  | cons f rest ih =>
    rw [searches, List.map_cons, searches, FunctionNode.plain_dataAccess]
    cases f.dataAccess.find? (·.matches table field) with
    | none => exact ih progress
    | some access =>
      refine shadows_bind (Backward.climb_shadows (fun _ => rfl) [f] maxDepth) fun c => ?_
      rw [add_plain]
      exact ih _

theorem toData_blind (table : String) (field : Option String) (maxDepth : Option Nat) :
    Blind known (toData table field maxDepth) := by
  refine shadows_missing (shadows_bind (shadows_accessing table field) fun accessors => ?_)
  refine shadows_bind (searches_blind table field maxDepth {} accessors) fun progress => ?_
  refine shadows_pure ?_
  rw [List.length_map]
  rfl

end InverseReach

/-! ### Impact -/

@[simps]
def Caller.plain (r : Caller) : Caller := { r with node := r.node.plain }

namespace Impact

variable (c : Classifier) (maxDepth : Option Nat)

theorem hits_blind (f : FunctionNode) : Blind known (hits c maxDepth f) :=
  shadows_bind (Reach.forward_blind c _ f.id) fun _ => shadows_pure rfl

theorem hitsOfAll_shadows (changed : List FunctionNode) :
    Shadows known (List.map (Prod.map FunctionNode.plain id)) (hitsOfAll c maxDepth changed)
      (hitsOfAll c maxDepth (changed.map FunctionNode.plain)) := by
  induction changed with
  | nil => exact shadows_pure rfl
  | cons f rest ih =>
    rw [hitsOfAll, List.map_cons, hitsOfAll]
    exact shadows_bind (hits_blind c maxDepth f) fun own =>
      shadows_bind ih fun others => shadows_pure rfl

theorem callersOf_shadows (changed : List FunctionNode) :
    Shadows known (List.map Caller.plain) (callersOf changed maxDepth)
      (callersOf (changed.map FunctionNode.plain) maxDepth) := by
  refine shadows_bind (Backward.climb_shadows (fun _ => rfl) changed maxDepth) fun climb => ?_
  refine shadows_pure ?_
  simp only [Climb.plain, List.filter_map, List.map_map]
  rfl

theorem affectedOf_shadows (callers : List Caller) :
    Shadows known id (affectedOf c maxDepth callers)
      (affectedOf c maxDepth (callers.map Caller.plain)) := by
  induction callers with
  | nil => exact shadows_pure rfl
  | cons r rest ih =>
    rw [affectedOf, List.map_cons, affectedOf]
    exact shadows_bind (hits_blind c maxDepth r.node) fun own =>
      shadows_bind ih fun others => shadows_pure rfl

theorem entryPointsOf_plain (changed : List (FunctionNode × List Hit))
    (affected : List AffectedFunction) :
    entryPointsOf (changed.map (Prod.map FunctionNode.plain id)) affected =
      entryPointsOf changed affected := by
  simp only [entryPointsOf, List.filter_map, List.map_map]
  rfl

theorem routes_plain (f : FunctionNode) (callers : List Caller) :
    routes f.plain (callers.map Caller.plain) = routes f callers := by
  simp only [routes, List.filter_map, List.map_map]
  rfl

theorem dataPathsFrom_shadows (entries : List AffectedFunction) (best : Dict DataPathKey DataPath)
    (changed : List (FunctionNode × List Hit)) :
    Shadows known id (dataPathsFrom maxDepth entries best changed)
      (dataPathsFrom maxDepth entries best (changed.map (Prod.map FunctionNode.plain id))) := by
  induction changed generalizing best with
  | nil => exact shadows_pure rfl
  | cons entry rest ih =>
    rcases entry with ⟨f, hits⟩
    rw [dataPathsFrom, List.map_cons, Prod.map_apply, dataPathsFrom, id_eq]
    split
    · exact ih best
    · refine shadows_bind (callersOf_shadows maxDepth [f]) fun callers => ?_
      rw [routes_plain]
      exact ih _

theorem dataPathsOf_shadows (entries : List AffectedFunction)
    (changed : List (FunctionNode × List Hit)) :
    Shadows known id (dataPathsOf maxDepth entries changed)
      (dataPathsOf maxDepth entries (changed.map (Prod.map FunctionNode.plain id))) :=
  shadows_bind (dataPathsFrom_shadows maxDepth entries [] changed) fun _ => shadows_pure rfl

theorem distinctById_plain (functions : List FunctionNode) :
    distinctById (functions.map FunctionNode.plain) =
      (distinctById functions).map FunctionNode.plain := by
  have order : ∀ a ∈ functions, ∀ b ∈ functions,
      FunctionNode.idLe a b = FunctionNode.idLe a.plain b.plain := fun _ _ _ _ => rfl
  have sorted : (functions.map FunctionNode.plain).mergeSort FunctionNode.idLe =
      (functions.mergeSort FunctionNode.idLe).map FunctionNode.plain :=
    (List.map_mergeSort order).symm
  have distinct : ∀ fs : List FunctionNode, distinctBy (·.id) (fs.map FunctionNode.plain) =
      (distinctBy (·.id) fs).map FunctionNode.plain := by
    intro fs
    induction fs with
    | nil => rfl
    | cons f rest ih =>
      rw [List.map_cons, distinctBy, ih, distinctBy, List.map_cons, List.filter_map]
      rfl
  rw [distinctById, sorted, distinct, distinctById]

theorem summarize_plain (changed : List FunctionNode) (callers : List Caller)
    (affected entries : List AffectedFunction) (paths : List DataPath) :
    summarize (changed.map FunctionNode.plain) (callers.map Caller.plain) affected entries paths =
      summarize changed callers affected entries paths := by
  simp [summarize, total_map]

theorem ofChanged_shadows (target : String) (changed : List FunctionNode) :
    Shadows known id (ofChanged c maxDepth target changed)
      (ofChanged c maxDepth target (changed.map FunctionNode.plain)) := by
  refine shadows_bind (hitsOfAll_shadows c maxDepth changed) fun withHits => ?_
  refine shadows_bind (callersOf_shadows maxDepth changed) fun callers => ?_
  refine shadows_bind (affectedOf_shadows c maxDepth callers) fun affected => ?_
  simp only [entryPointsOf_plain, id_eq]
  refine shadows_bind (dataPathsOf_shadows maxDepth _ withHits) fun paths => shadows_pure ?_
  simp only [summarize_plain, List.map_map]
  rfl

theorem analyze_shadows (target : String) (functions : List FunctionNode) :
    Shadows known id (analyze c maxDepth target functions)
      (analyze c maxDepth target (functions.map FunctionNode.plain)) := by
  refine shadows_missing ?_
  simp only [List.isEmpty_map, distinctById_plain]
  by_cases nothing : functions.isEmpty = true
  · rw [if_pos nothing, if_pos nothing]
    exact shadows_pure rfl
  · rw [if_neg nothing, if_neg nothing]
    exact ofChanged_shadows c maxDepth target _

theorem ofFile_blind {file : String} (fair : known file) : Blind known (ofFile c maxDepth file) :=
  shadows_bind (shadows_inFile fair) fun found => analyze_shadows c maxDepth file found

theorem ofFunction_blind (id : String) : Blind known (ofFunction c maxDepth id) := by
  refine shadows_bind (shadows_function id) fun found => ?_
  rw [Option.toList_map]
  exact analyze_shadows c maxDepth id found.toList

theorem ofName_blind (name : String) : Blind known (ofName c maxDepth name) :=
  shadows_bind (shadows_named name) fun found => analyze_shadows c maxDepth name found

end Impact

/-! ### Findings -/

namespace EnrichedFinding

variable (c : Classifier) (regulations : RegulationMap) (maxDepth : Option Nat)

theorem ofFinding_blind {finding : Finding} (fair : known finding.file) :
    Blind known (ofFinding c regulations maxDepth finding) := by
  refine shadows_missing (shadows_bind (shadows_inFile fair) fun found => ?_)
  rw [innermost_plain]
  cases innermost found finding.line with
  | none => exact shadows_pure rfl
  | some f =>
    refine shadows_bind (Reach.forward_blind c _ f.id) fun reach => ?_
    exact shadows_bind (Impact.ofFunction_blind c maxDepth f.id) fun impact => shadows_pure rfl

theorem ofEach_blind {findings : List Finding} (fair : ∀ f ∈ findings, known f.file) :
    Blind known (ofEach c regulations maxDepth findings) := by
  induction findings with
  | nil => exact shadows_pure rfl
  | cons f rest ih =>
    rw [ofEach]
    refine shadows_bind (ofFinding_blind c regulations maxDepth (fair f (List.mem_cons_self ..)))
      fun e => ?_
    exact shadows_bind (ih fun g later => fair g (List.mem_cons_of_mem f later)) fun others =>
      shadows_pure rfl

theorem ofAll_blind {findings : List Finding} (fair : ∀ f ∈ findings, known f.file) :
    Blind known (ofAll c regulations maxDepth findings) :=
  shadows_bind (ofEach_blind c regulations maxDepth fair) fun _ => shadows_pure rfl

end EnrichedFinding

/-! ### All of them -/

/-- Something that can be asked of a source of answers. -/
inductive Analysis where
  | reachFrom (c : Classifier) (o : ReachOptions) (id : String)
  | reachAt (c : Classifier) (o : ReachOptions) (file : String) (line : UInt32)
  | pathsTo (c : Classifier) (file : String) (line : UInt32) (table : String)
    (field : Option String)
  | pathsToData (table : String) (field : Option String) (maxDepth : Option Nat)
  | impactOfFile (c : Classifier) (maxDepth : Option Nat) (file : String)
  | impactOfFunction (c : Classifier) (maxDepth : Option Nat) (id : String)
  | impactOfName (c : Classifier) (maxDepth : Option Nat) (name : String)
  | enrich (c : Classifier) (regulations : RegulationMap) (maxDepth : Option Nat)
    (finding : Finding)
  | enrichAll (c : Classifier) (regulations : RegulationMap) (maxDepth : Option Nat)
    (findings : List Finding)

namespace Analysis

abbrev Outcome : Analysis → Type
  | reachFrom .. | reachAt .. => Reach
  | pathsTo .. => List (List PathNode)
  | pathsToData .. => InverseReach
  | impactOfFile .. | impactOfFunction .. | impactOfName .. => Impact
  | enrich .. => EnrichedFinding
  | enrichAll .. => List EnrichedFinding

def inquiry : (a : Analysis) → Inquiry a.Outcome
  | reachFrom c o id => Reach.fromFunction c o id
  | reachAt c o file line => Reach.fromLine c o file line
  | pathsTo c file line table field => Reach.pathsTo c file line table field
  | pathsToData table field maxDepth => InverseReach.toData table field maxDepth
  | impactOfFile c maxDepth file => Impact.ofFile c maxDepth file
  | impactOfFunction c maxDepth id => Impact.ofFunction c maxDepth id
  | impactOfName c maxDepth name => Impact.ofName c maxDepth name
  | enrich c regulations maxDepth finding =>
    EnrichedFinding.ofFinding c regulations maxDepth finding
  | enrichAll c regulations maxDepth findings =>
    EnrichedFinding.ofAll c regulations maxDepth findings

def files : Analysis → List String
  | reachAt _ _ file _ | pathsTo _ file .. | impactOfFile _ _ file => [file]
  | enrich _ _ _ finding => [finding.file]
  | enrichAll _ _ _ findings => findings.map (·.file)
  | _ => []

theorem blind (a : Analysis) (fair : ∀ file ∈ a.files, known file) : Blind known a.inquiry := by
  cases a with
  | reachFrom c o id => exact Reach.fromFunction_blind c o id
  | reachAt c o file line => exact Reach.fromLine_blind c o (fair file (by simp [files])) line
  | pathsTo c file line table field =>
    exact Reach.pathsTo_blind c (fair file (by simp [files])) line table field
  | pathsToData table field maxDepth => exact InverseReach.toData_blind table field maxDepth
  | impactOfFile c maxDepth file =>
    exact Impact.ofFile_blind c maxDepth (fair file (by simp [files]))
  | impactOfFunction c maxDepth id => exact Impact.ofFunction_blind c maxDepth id
  | impactOfName c maxDepth name => exact Impact.ofName_blind c maxDepth name
  | enrich c regulations maxDepth finding =>
    exact EnrichedFinding.ofFinding_blind c regulations maxDepth (fair _ (by simp [files]))
  | enrichAll c regulations maxDepth findings =>
    exact EnrichedFinding.ofAll_blind c regulations maxDepth fun f member =>
      fair _ (List.mem_map_of_mem member)

end Analysis

end DataReach
