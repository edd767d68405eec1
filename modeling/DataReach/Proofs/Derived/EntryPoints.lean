import DataReach.Proofs.Converse
import DataReach.Proofs.Derived.Counts
import DataReach.Proofs.Derived.Survey
import DataReach.Proofs.Store.Reached
import DataReach.Proofs.Store.Reports
/-!
The list of entry points and the search that loads shards as it comes to them. The list is made from
what one sweep shows; the search asks the store for one function after another, when the cache may
show other confidences or nothing at all. Where every function of the sweep is still found by its
id, both follow the same graph.
-/

namespace DataReach

/-! ### Inquiries that ask for functions only -/

namespace Inquiry

variable {α β : Type}

/-- All that an inquiry asks for are functions by their ids. -/
inductive AsksFunctions : Inquiry α → Prop
  | done (a : α) : AsksFunctions (.done a)
  | ask {id : String} {next : Option FunctionNode → Inquiry α} :
    (∀ found, AsksFunctions (next found)) → AsksFunctions (.ask (.function id) next)

theorem asksFunctions_bind {x : Inquiry α} {f : α → Inquiry β} (first : AsksFunctions x)
    (rest : ∀ a, AsksFunctions (f a)) : AsksFunctions (x >>= f) := by
  induction first with
  | done a => exact rest a
  | ask _ ih => exact .ask ih

theorem asksFunctions_function (id : String) : AsksFunctions (function id) := .ask .done

end Inquiry

open Inquiry

namespace Forward

theorem follow_asks (depth : Nat) (pending : List (String × List PathNode)) :
    AsksFunctions (follow depth pending) := by
  induction pending with
  | nil => exact .done _
  | cons entry rest ih =>
    rw [follow]
    apply asksFunctions_bind (asksFunctions_function entry.1)
    intro found
    exact asksFunctions_bind ih fun others => .done _

theorem levels_asks (left depth : Nat) (seen : List String) (level : List Visit) :
    AsksFunctions (levels left depth seen level) := by
  induction left generalizing depth seen level with
  | zero => cases level <;> exact .done _
  | succ left ih =>
    cases level with
    | nil => exact .done _
    | cons v rest =>
      rw [levels]
      · apply asksFunctions_bind (follow_asks _ _)
        intro next
        exact asksFunctions_bind (ih _ _ next) fun others => .done _
      · simp

theorem visits_asks (origin : FunctionNode) (maxDepth : Option Nat) :
    AsksFunctions (visits origin maxDepth) :=
  levels_asks _ 0 [origin.id] [.origin origin]

end Forward

theorem Reach.forward_asks (c : Classifier) (o : ReachOptions) (id : String) :
    AsksFunctions (forward c o id) := by
  apply asksFunctions_bind (asksFunctions_function id)
  intro found
  cases found with
  | none => exact .done _
  | some f => exact asksFunctions_bind (Forward.visits_asks f o.maxDepth) fun visits => .done _

/-! ### Surveys of shards -/

theorem Survey.describes_ofShards (shards : List Shard) :
    (ofShards shards).Describes (.ofShards shards) := by
  intro id
  rw [ofShards, CallGraph.ofShards]
  generalize shards.flatMap (·.functions) = functions
  induction functions using List.reverseRecOn with
  | nil => rfl
  | append_singleton front last ih =>
    simp only [List.foldl_append, List.foldl_cons, List.foldl_nil]
    rw [Dict.get?_insert, CallGraph.function?_insert, ih]
    split <;> rfl

namespace Store

variable {s t u : Store} {ks : List String}

/-! ### The search over a store -/

theorem function_fst (id : String) (s : Store) :
    (function id s).1 = (FunctionNode.fileOfId id).bind fun file =>
      (s.shown (shardKey file)).bind (·.function? id) := by
  rw [function]
  cases FunctionNode.fileOfId id with
  | none => rfl
  | some file => simp only [run_bind, run_pure, loadPath, load_fst, Option.bind_some]

theorem shown_function (id k : String) (s : Store) :
    (function id s).2.shown k = s.shown k := by
  rw [function]
  cases FunctionNode.fileOfId id with
  | none => rfl
  | some file => simp only [run_bind, run_pure, loadPath, shown_load]

theorem run_asksFunctions {α : Type} {x : Inquiry α} (asks : AsksFunctions x) {g : CallGraph}
    (answers : ∀ id, (function id s).1 = g.function? id) :
    (x.run answer s).1 = x.eval g.answers := by
  induction asks generalizing s with
  | done a => rfl
  | @ask id next _ ih =>
    have later : ∀ other, (function other (function id s).2).1 = g.function? other := by
      intro other
      rw [← answers, function_fst, function_fst]
      simp only [shown_function]
    have asked : ((Inquiry.ask (.function id) next).run answer s).1 =
        ((next (function id s).1).run answer (function id s).2).1 := rfl
    rw [asked, ih (function id s).1 later, answers]
    rfl

/-! ### What a later state shows of a sweep -/

theorem shown_before (coherent : Coherent Matches t) (unwritten : Unwritten t u) {k : String}
    (plain : '/' ∉ k.toList) {shard : Shard} (now : u.shown k = some shard) :
    ∃ before, t.shown k = some before ∧ before.plain = shard.plain := by
  rcases shown_of_unwritten unwritten plain with same | read
  · exact ⟨shard, same ▸ now, rfl⟩
  · rw [now] at read
    rw [shown]
    cases cached : t.cache.shards.get? k with
    | none => exact ⟨shard, read.symm, rfl⟩
    | some kept => exact ⟨kept, rfl, (coherent.kept k kept plain cached shard read.symm).symm⟩

theorem listed_of_shown {R : Shard → Option Shard → Prop} (coherent : Coherent R t)
    (listed : t.keys = .ok ks) {k : String} (plain : '/' ∉ k.toList) (some : k ≠ "")
    (there : t.shown k ≠ none) : k ∈ ks := by
  obtain ⟨all, same, -, within⟩ := coherent.listed
  rw [listed] at same
  cases same
  cases cached : t.cache.shards.get? k with
  | some kept => exact within k plain some (cached ▸ nofun)
  | none =>
    by_contra absent
    apply there
    rw [shown, cached, readShard_unlisted listed plain some absent]
    rfl

section Later

variable (coherent : Coherent Matches t) (unwritten : Unwritten t u) (listed : t.keys = .ok ks)

include coherent unwritten listed

theorem function_before {h : FunctionNode}
    (now : h ∈ (ks.filterMap u.shown).flatMap (·.functions)) :
    ∃ f ∈ (ks.filterMap t.shown).flatMap (·.functions), f.plain = h.plain := by
  obtain ⟨shard, there, own⟩ := List.mem_flatMap.mp now
  obtain ⟨k, member, shown⟩ := List.mem_filterMap.mp there
  obtain ⟨before, stored, same⟩ :=
    shown_before coherent unwritten (plain_of_listed listed k member) shown
  have functions := congrArg Shard.functions same
  have inside : h.plain ∈ before.functions.map FunctionNode.plain := by
    rw [← Shard.plain_functions, functions]
    exact List.mem_map_of_mem own
  obtain ⟨f, held, equal⟩ := List.mem_map.mp inside
  exact ⟨f, List.mem_flatMap.mpr ⟨before, List.mem_filterMap.mpr ⟨k, member, stored⟩, held⟩, equal⟩

theorem ids_later_sublist :
    (((ks.filterMap u.shown).flatMap (·.functions)).map (·.id)).Sublist
      (((ks.filterMap t.shown).flatMap (·.functions)).map (·.id)) := by
  have plain := plain_of_listed listed
  clear listed
  induction ks with
  | nil => exact .slnil
  | cons k rest ih =>
    have others := ih fun k later => plain k (List.mem_cons_of_mem _ later)
    cases now : u.shown k with
    | none =>
      rw [List.filterMap_cons_none now]
      apply others.trans
      apply List.Sublist.map
      cases before : t.shown k with
      | none => rw [List.filterMap_cons_none before]
      | some shard =>
        rw [List.filterMap_cons_some before, List.flatMap_cons]
        exact List.sublist_append_right ..
    | some shard =>
      obtain ⟨before, stored, same⟩ :=
        shown_before coherent unwritten (plain k (List.mem_cons_self ..)) now
      have ids : before.functions.map (·.id) = shard.functions.map (·.id) := by
        have functions := congrArg (fun s : Shard => s.functions.map (·.id)) same
        simpa [Function.comp_def] using functions
      rw [List.filterMap_cons_some now, List.filterMap_cons_some stored, List.flatMap_cons,
        List.flatMap_cons, List.map_append, List.map_append, ids]
      exact others.append_left _

variable (once : (((ks.filterMap t.shown).flatMap (·.functions)).map (·.id)).Nodup)
  (retrieved : ∀ f ∈ (ks.filterMap t.shown).flatMap (·.functions), (function f.id u).1 ≠ none)

theorem mem_of_function {id : String} {h : FunctionNode} (found : (function id u).1 = some h) :
    h.id = id ∧ h ∈ (ks.filterMap u.shown).flatMap (·.functions) := by
  rw [function_fst] at found
  obtain ⟨file, -, loaded⟩ := Option.bind_eq_some_iff.mp found
  obtain ⟨shard, shown, named⟩ := Option.bind_eq_some_iff.mp loaded
  obtain ⟨before, stored, -⟩ := shown_before coherent unwritten (plain_shardKey file) shown
  have member := listed_of_shown coherent listed (plain_shardKey file) (shardKey_ne_empty file)
    (stored ▸ nofun)
  refine ⟨by simpa using List.find?_some named, List.mem_flatMap.mpr ⟨shard, ?_, ?_⟩⟩
  · exact List.mem_filterMap.mpr ⟨_, member, shown⟩
  · exact List.mem_of_find?_eq_some named

include once retrieved

theorem function_eq_graph (id : String) :
    (function id u).1 = (CallGraph.ofShards (ks.filterMap u.shown)).function? id := by
  have later := once.sublist (ids_later_sublist coherent unwritten listed)
  have found : ∀ h, (function id u).1 = some h →
      (CallGraph.ofShards (ks.filterMap u.shown)).function? id = some h := by
    intro h answered
    obtain ⟨rfl, member⟩ := mem_of_function coherent unwritten listed answered
    exact (CallGraph.function?_ofShards later).mpr member
  cases answered : (function id u).1 with
  | some h => exact (found h answered).symm
  | none =>
    cases held : (CallGraph.ofShards (ks.filterMap u.shown)).function? id with
    | none => rfl
    | some h =>
      obtain rfl := CallGraph.id_of_function? held
      have member := (CallGraph.function?_ofShards later).mp held
      obtain ⟨f, before, same⟩ := function_before coherent unwritten listed member
      have named : f.id = h.id := by simpa using congrArg FunctionNode.id same
      exact absurd (named ▸ answered) (retrieved f before)

theorem survey_describes :
    (Survey.ofShards (ks.filterMap t.shown)).Describes
      (CallGraph.ofShards (ks.filterMap u.shown)) := by
  have held : ∀ f ∈ (ks.filterMap t.shown).flatMap (·.functions),
      ∃ h, (CallGraph.ofShards (ks.filterMap u.shown)).function? f.id = some h ∧
        h.plain = f.plain := by
    intro f before
    obtain ⟨h, answered⟩ := Option.ne_none_iff_exists'.mp (retrieved f before)
    obtain ⟨named, member⟩ := mem_of_function coherent unwritten listed answered
    obtain ⟨g, also, same⟩ := function_before coherent unwritten listed member
    have ids : g.id = h.id := by simpa using congrArg FunctionNode.id same
    obtain rfl := List.inj_on_of_nodup_map once also before (ids.trans named)
    rw [function_eq_graph coherent unwritten listed once retrieved] at answered
    exact ⟨h, answered, same.symm⟩
  intro id
  rw [Survey.describes_ofShards]
  cases before : (CallGraph.ofShards (ks.filterMap t.shown)).function? id with
  | some f =>
    obtain rfl := CallGraph.id_of_function? before
    obtain ⟨h, found, same⟩ := held f ((CallGraph.function?_ofShards once).mp before)
    rw [found, Option.map_some, Option.map_some, ← SurveyNode.ofFunction_plain, ← same,
      SurveyNode.ofFunction_plain]
  | none =>
    cases now : (CallGraph.ofShards (ks.filterMap u.shown)).function? id with
    | none => rfl
    | some h =>
      obtain rfl := CallGraph.id_of_function? now
      have later := once.sublist (ids_later_sublist coherent unwritten listed)
      obtain ⟨f, member, same⟩ := function_before coherent unwritten listed
        ((CallGraph.function?_ofShards later).mp now)
      have named : f.id = h.id := by simpa using congrArg FunctionNode.id same
      rw [← named, (CallGraph.function?_ofShards once).mpr member] at before
      cases before

end Later

/-! ### The list of entry points -/

theorem run_missing {α : Type} (available : u.isAvailable = true)
    (rest : Option GraphError → Inquiry α) :
    (missing? >>= rest).run answer u = (rest none).run answer u := by
  have asked : (missing? >>= rest).run answer u =
      (((if u.isAvailable then return none
        else return some (.notBuilt (← location)) : Inquiry (Option GraphError)) >>= rest).run
          answer u) := rfl
  rw [asked, available]
  rfl

theorem run_fromFunction (available : u.isAvailable = true) (c : Classifier) (o : ReachOptions)
    (id : String) :
    (Reach.fromFunction c o id).run answer u = (Reach.forward c o id).run answer u :=
  run_missing available _

theorem entryPoints_made {shards : List Shard} (swept : (sweep t).1 = .ok shards)
    {list : EntryPointList} (made : (buildEntryPoints t).1 = .ok list ∨
      ∃ index, (buildDerived t).1 = .ok (index, list)) :
    list.entryPoints = EntryPoint.ofShards shards := by
  have reports := reports_of_sweep swept
  have own : (buildEntryPoints t).1 = .ok list := by
    rcases made with made | ⟨index, made⟩
    · exact made
    · exact ((reports.derived index list).mp made).2
  rw [((reports.entryPoints list).mp own).1]
  rfl

/-- Where no id comes twice and every function is found by its id, an entry of the list of entry
points says what the search from it visits and reports, in whatever state the store is asked. Depths
are words of 32 bits. -/
theorem entry_points_tell {P : Shard → Prop} (reached : Reached P t) (consults : Consults t u)
    {shards : List Shard} (swept : (sweep t).1 = .ok shards)
    (once : ((shards.flatMap (·.functions)).map (·.id)).Nodup)
    (retrieved : ∀ f ∈ shards.flatMap (·.functions), (function f.id u).1 ≠ none)
    {list : EntryPointList} (made : (buildEntryPoints t).1 = .ok list ∨
      ∃ index, (buildDerived t).1 = .ok (index, list))
    {e : EntryPoint} (member : e ∈ list.entryPoints) (fits : e.maxDepth ≤ depthLimit)
    (c : Classifier) :
    ∃ f visits r, (function e.id u).1 = some f ∧
      ((Forward.visits f none).run answer u).1 = visits ∧
      ((Reach.fromFunction c {} e.id).run answer u).1 = r ∧
      r = .ofVisits c {} ⟨f.file, f.startLine, some f.id⟩ visits ∧ e.Tells visits r := by
  have coherent := reached_matches reached
  have unwritten := unwritten_of_consults consults
  obtain ⟨ks, listed, ascending, -⟩ := coherent.listed
  obtain rfl : shards = ks.filterMap t.shown := by
    rw [sweep_fst listed ascending.nodup] at swept
    exact (Except.ok.inj swept).symm
  rw [entryPoints_made swept made, EntryPoint.ofShards, sortBy_eq, List.mem_mergeSort] at member
  obtain ⟨f, entry, rfl⟩ := List.mem_map.mp member
  have stored := (List.mem_filter.mp entry).1
  have answers := function_eq_graph coherent unwritten listed once retrieved
  obtain ⟨h, found⟩ := Option.ne_none_iff_exists'.mp (retrieved f stored)
  have present := (answers f.id).symm.trans found
  have tells := EntryPoint.tells_visits
    (survey_describes coherent unwritten listed once retrieved) present fits c
    ⟨h.file, h.startLine, some h.id⟩
  have available : u.isAvailable = true := by
    obtain ⟨shard, there, -⟩ := List.mem_flatMap.mp stored
    obtain ⟨k, key, -⟩ := List.mem_filterMap.mp there
    rw [isAvailable, unwritten.files.keys, listed]
    cases ks with
    | nil => cases key
    | cons first rest => rfl
  have searched := run_asksFunctions (Forward.visits_asks h none) answers
  have reported : ((Reach.fromFunction c {} f.id).run answer u).1 =
      .ofVisits c {} ⟨h.file, h.startLine, some h.id⟩
        ((Forward.visits h none).eval (CallGraph.ofShards (ks.filterMap u.shown)).answers) := by
    rw [run_fromFunction available, run_asksFunctions (Reach.forward_asks c {} f.id) answers,
      Reach.eval_forward _ c {} present]
  exact ⟨h, _, _, found, searched, reported, rfl, tells⟩

def ringShard : Shard where
  file := "a.py"
  functions := [
    { id := "a.py:f:1", name := "f", qualifiedName := "f", file := "a.py", startLine := 1
      endLine := 9, isEntryPoint := true, isDataAccessor := false
      calls := [⟨"g", true, some "a.py:g:11", 0.75, 3⟩, ⟨"h", true, some "b.py:h:1", 0.75, 4⟩]
      calledBy := [⟨"a.py:g:11", 13⟩], dataAccess := [] },
    { id := "a.py:g:11", name := "g", qualifiedName := "g", file := "a.py", startLine := 11
      endLine := 19, isEntryPoint := false, isDataAccessor := true
      calls := [⟨"f", true, some "a.py:f:1", 0.75, 13⟩]
      calledBy := [⟨"a.py:f:1", 3⟩], dataAccess := [⟨"users", .read, 14, ["email"]⟩] }]

def ringStore : Store :=
  (Request.delete (shardKey "b.py")).on ((Request.save ringShard).on
    ((Request.save ⟨"b.py", []⟩).on blankStore).2).2 |>.2

theorem ringStore_reached : Reached Shard.Finite ringStore := by
  have fresh : Reached Shard.Finite blankStore := .fresh (by decide +kernel) rfl
  have first : (Request.save ⟨"b.py", []⟩).Admitted Shard.Finite := nofun
  have second : (Request.save ringShard).Admitted Shard.Finite := by
    rw [Request.Admitted, Shard.Finite]
    decide +kernel
  exact .request _ (plain_shardKey _) (.request _ second (.request _ first fresh))

theorem entry_points_tell_ring :
    ∃ list e f visits r, (buildEntryPoints ringStore).1 = .ok list ∧ e ∈ list.entryPoints ∧
      e.reachableFunctions = ["a.py:g:11"] ∧ e.reachableTables = ["users"] ∧ e.maxDepth = 1 ∧
      (function e.id (buildEntryPoints ringStore).2).1 = some f ∧
      ((Forward.visits f none).run answer (buildEntryPoints ringStore).2).1 = visits ∧
      ((Reach.fromFunction .standard {} e.id).run answer (buildEntryPoints ringStore).2).1 = r ∧
      e.Tells visits r := by
  have sweeps : (match (sweep ringStore).1 with
      | .ok shards => decide ((shards.flatMap (·.functions)).map (·.id) = ["a.py:f:1", "a.py:g:11"])
      | .error _ => false) = true := by
    decide +kernel
  have found : ∀ id ∈ ["a.py:f:1", "a.py:g:11"],
      (function id (buildEntryPoints ringStore).2).1 ≠ none := by
    decide +kernel
  have lists : (match (buildEntryPoints ringStore).1 with
      | .ok list => decide (list.entryPoints.map
          (fun e => (e.reachableFunctions, e.reachableTables, e.maxDepth)) =
            [(["a.py:g:11"], ["users"], 1)])
      | .error _ => false) = true := by
    decide +kernel
  split at sweeps
  case h_2 => cases sweeps
  case h_1 shards swept =>
    have ids := of_decide_eq_true sweeps
    have retrieved : ∀ f ∈ shards.flatMap (·.functions),
        (function f.id (buildEntryPoints ringStore).2).1 ≠ none := by
      intro f member
      exact found f.id (ids ▸ List.mem_map_of_mem member)
    split at lists
    case h_2 => cases lists
    case h_1 list made =>
      obtain ⟨e, only, said⟩ := List.map_eq_singleton_iff.mp (of_decide_eq_true lists)
      have member : e ∈ list.entryPoints := only ▸ List.mem_singleton_self e
      obtain ⟨functions, tables, depth⟩ : e.reachableFunctions = ["a.py:g:11"] ∧
          e.reachableTables = ["users"] ∧ e.maxDepth = 1 := by
        simpa only [Prod.mk.injEq] using said
      have fits : e.maxDepth ≤ depthLimit := by
        rw [depth]
        decide
      obtain ⟨f, visits, r, node, searched, reported, -, tells⟩ := entry_points_tell
        ringStore_reached (.entryPoints .refl) swept (ids ▸ by decide) retrieved (.inl made) member
        fits .standard
      exact ⟨list, e, f, visits, r, made, member, functions, tables, depth, node, searched,
        reported, tells⟩

end Store

end DataReach
