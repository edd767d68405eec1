import DataReach.Proofs.Impact.Affected
import DataReach.Proofs.Impact.Risk
import DataReach.Proofs.Shortest
/-!
Which sensitive accesses the paths of a report show. A path is kept for each entry point, accessor,
table, line and operation. The fields of an access are no part of that, so of the sensitive accesses
that one function makes to a table on one line by one operation only the first is ever shown, and
what the others touch counts neither among the paths nor for the risk.
-/

namespace DataReach

namespace Impact

theorem foldl_offer (offers : List (DataPathKey × DataPath)) :
    offers.foldl offer [] = Dict.shortestOf Prod.fst Prod.snd (·.fullPath.length) offers := by
  have same : ∀ best p, offer best p = best.keepShorter (·.fullPath.length) p.1 p.2 := by
    intro best p
    rw [offer, Dict.keepShorter]
    cases best.get? p.1 <;> rfl
  rw [Dict.shortestOf, funext fun best => funext (same best)]

theorem split_flatMap {α β : Type} {make : α → List β} {xs : List α} {front back : List β} {b : β}
    (split : xs.flatMap make = front ++ b :: back) :
    ∃ x ∈ xs, ∃ before after, make x = before ++ b :: after ∧ ∀ a ∈ before, a ∈ front := by
  induction xs generalizing front with
  | nil => simp at split
  | cons x rest ih =>
    rw [List.flatMap_cons] at split
    rcases List.append_eq_append_iff.mp split with ⟨others, ahead, later⟩ | ⟨own, here, later⟩
    · obtain ⟨y, member, before, after, made, within⟩ := ih later
      refine ⟨y, List.mem_cons_of_mem x member, before, after, made, fun a first => ?_⟩
      exact ahead ▸ List.mem_append_right _ (within a first)
    · cases own with
      | nil =>
        rw [List.nil_append] at later
        obtain ⟨y, member, before, after, made, within⟩ := @ih [] later.symm
        refine ⟨y, List.mem_cons_of_mem x member, before, after, made, fun a first => ?_⟩
        exact absurd (within a first) List.not_mem_nil
      | cons first others =>
        rw [List.cons_append, List.cons.injEq] at later
        refine ⟨x, List.mem_cons_self .., front, others, ?_, fun a first => first⟩
        rw [here, later.1]

section Leads

def samePlace (a b : DataAccess) : Bool :=
  a.table == b.table && a.line == b.line && a.operation == b.operation

def sensitiveAccesses (c : Classifier) (h : FunctionNode) : List DataAccess :=
  h.dataAccess.filter fun a => (c.classifyAccess a).isSensitive

def Leads (c : Classifier) (h : FunctionNode) (a : DataAccess) : Prop :=
  (sensitiveAccesses c h).find? (samePlace a) = some a

theorem samePlace_iff {a b : DataAccess} :
    samePlace a b = true ↔ a.table = b.table ∧ a.line = b.line ∧ a.operation = b.operation := by
  simp [samePlace, and_assoc]

theorem samePlace_trans {a b d : DataAccess} (same : samePlace a b = true) :
    samePlace a d = samePlace b d := by
  rcases samePlace_iff.mp same with ⟨table, line, operation⟩
  simp [samePlace, table, line, operation]

theorem leads_unique {c : Classifier} {h : FunctionNode} {a b : DataAccess} (first : Leads c h a)
    (second : Leads c h b) (same : samePlace a b = true) : a = b := by
  have place : samePlace a = samePlace b := funext fun _ => samePlace_trans same
  rw [Leads, place, second] at first
  exact (Option.some.inj first).symm

theorem mem_sensitiveAccesses {c : Classifier} {h : FunctionNode} {a : DataAccess} :
    a ∈ sensitiveAccesses c h ↔ a ∈ h.dataAccess ∧ c.classifyAccess a ≠ .unknown := by
  simp [sensitiveAccesses, Sensitivity.isSensitive]

theorem mem_of_leads {c : Classifier} {h : FunctionNode} {a : DataAccess} (leads : Leads c h a) :
    a ∈ sensitiveAccesses c h :=
  List.mem_of_find?_eq_some leads

theorem leads_or_after {c : Classifier} {h : FunctionNode} {front back : List DataAccess}
    {a : DataAccess}
    (split : sensitiveAccesses c h = front ++ a :: back) :
    Leads c h a ∨ ∃ b ∈ front, samePlace b a = true := by
  by_cases after : ∃ b ∈ front, samePlace b a = true
  · exact .inr after
  · apply Or.inl
    have fresh : front.find? (samePlace a) = none := by
      rw [List.find?_eq_none]
      intro b member same
      have back : samePlace b a = true := by
        rcases samePlace_iff.mp same with ⟨table, line, operation⟩
        exact samePlace_iff.mpr ⟨table.symm, line.symm, operation.symm⟩
      exact after ⟨b, member, back⟩
    have own : samePlace a a = true := samePlace_iff.mpr ⟨rfl, rfl, rfl⟩
    rw [Leads, split, List.find?_append, fresh, List.find?_cons_of_pos own]
    rfl

theorem exists_leads {c : Classifier} {h : FunctionNode} {a : DataAccess}
    (sensitive : a ∈ sensitiveAccesses c h) : ∃ b, Leads c h b ∧ samePlace b a = true := by
  cases found : (sensitiveAccesses c h).find? (samePlace a) with
  | none =>
    have missing := List.find?_eq_none.mp found a sensitive
    exact absurd (samePlace_iff.mpr ⟨rfl, rfl, rfl⟩) missing
  | some b =>
    have same := List.find?_some found
    have place : samePlace b = samePlace a := funext fun _ => (samePlace_trans same).symm
    refine ⟨b, ?_, ?_⟩
    · rw [Leads, place, found]
    · rw [place]
      exact samePlace_iff.mpr ⟨rfl, rfl, rfl⟩

theorem classifyAccess_congr (c : Classifier) {a b : DataAccess} (table : a.table = b.table)
    (fields : a.fields = b.fields) : c.classifyAccess a = c.classifyAccess b := by
  simp [Classifier.classifyAccess, table, fields]

end Leads

section Hits

variable (g : CallGraph) (c : Classifier) (maxDepth : Option Nat)

def hitsAt (v : Visit) : List Hit :=
  (sensitiveAccesses c v.node).map fun a =>
    ⟨⟨v.node.id, v.node.file, a, v.path, v.depth⟩, c.classifyAccess a⟩

theorem eval_hits {f : FunctionNode} (present : g.function? f.id = some f) :
    (hits c maxDepth f).eval g.answers =
      ((Forward.visits f maxDepth).eval g.answers).flatMap (hitsAt c) := by
  simp only [hits, Inquiry.eval_bind, Inquiry.eval_pure, Reach.eval_forward g c _ present]
  simp [Reach.ofVisits, Visit.accesses, ReachOptions.admits, List.filter_flatMap,
    List.map_flatMap, List.filter_map, Function.comp_def]
  rfl

def routesInto (f : FunctionNode) : Dict String (List PathNode) :=
  routes f ((callersOf [f] maxDepth).eval g.answers)

def offersThrough (entries : List AffectedFunction) (f : FunctionNode × List Hit) :
    List (DataPathKey × DataPath) :=
  entries.flatMap fun e => f.2.map (dataPath (routesInto g maxDepth f.1) e)

theorem eval_dataPathsFrom (entries : List AffectedFunction) (best : Dict DataPathKey DataPath)
    (changed : List (FunctionNode × List Hit)) :
    (dataPathsFrom maxDepth entries best changed).eval g.answers =
      (changed.flatMap (offersThrough g maxDepth entries)).foldl offer best := by
  induction changed generalizing best with
  | nil => rfl
  | cons first rest ih =>
    rcases first with ⟨f, found⟩
    rw [dataPathsFrom, List.flatMap_cons, List.foldl_append]
    split
    · next none =>
      have nothing : offersThrough g maxDepth entries (f, found) = [] := by
        simp [offersThrough, List.isEmpty_iff.mp none]
      rw [ih, nothing]
      rfl
    · simp only [Inquiry.eval_bind, ih]
      rfl

end Hits

section Shown

variable {g : CallGraph} {c : Classifier} {maxDepth : Option Nat} {changed : List FunctionNode}
  {entries : List AffectedFunction}

def Shows (c : Classifier) (p : DataPath) (h : FunctionNode) (a : DataAccess) : Prop :=
  p.accessorId = h.id ∧ p.table = a.table ∧ p.fields = a.fields ∧ p.operation = a.operation ∧
    p.sensitivity = c.classifyAccess a

def keyOf (entry : String) (h : FunctionNode) (a : DataAccess) : DataPathKey :=
  ⟨entry, h.id, a.table, a.line, a.operation⟩

theorem keyOf_inj {entry other : String} {h k : FunctionNode} {a b : DataAccess}
    (same : keyOf entry h a = keyOf other k b) :
    entry = other ∧ h.id = k.id ∧ samePlace a b = true := by
  simp only [keyOf, DataPathKey.mk.injEq] at same
  exact ⟨same.1, same.2.1, samePlace_iff.mpr same.2.2⟩

def ShowsLead (g : CallGraph) (c : Classifier) (k : DataPathKey) (p : DataPath) : Prop :=
  ∃ h a, g.function? h.id = some h ∧ Leads c h a ∧ k = keyOf p.entryPoint h a ∧ Shows c p h a

/-- The accesses of one visit have one way to them, so that of those at a place the first one is
offered before the others. -/
theorem leads_or_offered (routes : Dict String (List PathNode)) (e : AffectedFunction) (v : Visit)
    {before after : List (DataPathKey × DataPath)} {p : DataPathKey × DataPath}
    (present : g.function? v.node.id = some v.node)
    (split : (hitsAt c v).map (dataPath routes e) = before ++ p :: after) :
    ShowsLead g c p.1 p.2 ∨
      ∃ q ∈ before, q.1 = p.1 ∧ q.2.fullPath.length = p.2.fullPath.length := by
  rw [hitsAt, List.map_map] at split
  rcases List.map_eq_append_iff.mp split with ⟨front, back, accesses, rfl, tail⟩
  rcases List.map_eq_cons_iff.mp tail with ⟨a, others, rfl, rfl, -⟩
  rcases leads_or_after accesses with leads | ⟨b, earlier, same⟩
  · exact .inl ⟨v.node, a, present, leads, rfl, rfl, rfl, rfl, rfl, rfl⟩
  · refine .inr ⟨_, List.mem_map_of_mem earlier, ?_, ?_⟩
    · rcases samePlace_iff.mp same with ⟨table, line, operation⟩
      simp [dataPath, table, line, operation]
    · simp [dataPath, fullPath]

/-- A change reaches a function along so many resolved calls. Without a bound the number of
functions keeps searches short of the limit. -/
def Reaches (g : CallGraph) (maxDepth : Option Nat) (changed : List FunctionNode)
    (h : FunctionNode) : Prop :=
  ∃ f ∈ changed, ∃ n, Walk (· = f) g.Calls n h ∧
    (n ≤ maxDepth.getD depthLimit ∨ maxDepth = none ∧ g.size ≤ depthLimit)

theorem function?_of_reach {origin h : FunctionNode} {n : Nat}
    (present : g.function? origin.id = some origin) (walk : Walk (· = origin) g.Calls n h) :
    g.function? h.id = some h := by
  refine CallGraph.exists_of_walk ?_ (fun _ _ => CallGraph.function?_of_calls) walk
  rintro _ rfl
  exact present

theorem eq_of_reaches (present : ∀ f ∈ changed, g.function? f.id = some f) {h k : FunctionNode}
    (reached : Reaches g maxDepth changed h) (held : g.function? k.id = some k)
    (same : h.id = k.id) : h = k := by
  rcases reached with ⟨f, inside, n, walk, -⟩
  have found := function?_of_reach (present f inside) walk
  rw [same, held] at found
  exact (Option.some.inj found).symm

theorem function?_of_visit {f : FunctionNode} {v : Visit} (present : g.function? f.id = some f)
    (visited : v ∈ (Forward.visits f maxDepth).eval g.answers) :
    g.function? v.node.id = some v.node := by
  have distance := ((Forward.covers_visits present maxDepth).1.sound v visited).2.2
  exact function?_of_reach present distance.1

theorem reaches_iff_visited (present : ∀ f ∈ changed, g.function? f.id = some f)
    {h : FunctionNode} : Reaches g maxDepth changed h ↔
      ∃ f ∈ changed, ∃ v ∈ (Forward.visits f maxDepth).eval g.answers, v.node = h := by
  constructor
  · intro given
    rcases given with ⟨f, member, n, walk, allowed⟩
    refine ⟨f, member, ?_⟩
    rcases walk_distance walk with ⟨m, shorter, distance⟩
    apply (Forward.covers_visits (present f member) maxDepth).1.complete m h distance
    · exact Nat.zero_le m
    · rcases allowed with within | ⟨rfl, small⟩
      · omega
      · have start : ∀ k, k = f → g.function? k.id = some k := fun k same =>
          same ▸ present f member
        have bound := CallGraph.distance_lt_size start
          (fun _ _ => CallGraph.function?_of_calls) distance
        exact Nat.le_trans (Nat.le_of_lt bound) small
  · intro given
    rcases given with ⟨f, member, v, visited, rfl⟩
    have bounds := (Forward.covers_visits (present f member) maxDepth).1.sound v visited
    exact ⟨f, member, v.depth, bounds.2.2.1, .inl bounds.2.1⟩

def offersInto (g : CallGraph) (c : Classifier) (maxDepth : Option Nat)
    (entries : List AffectedFunction) (changed : List FunctionNode) :
    List (DataPathKey × DataPath) :=
  (changed.map fun f => (f, (hits c maxDepth f).eval g.answers)).flatMap
    (offersThrough g maxDepth entries)

def bestPaths (g : CallGraph) (c : Classifier) (maxDepth : Option Nat)
    (entries : List AffectedFunction) (changed : List FunctionNode) : Dict DataPathKey DataPath :=
  Dict.shortestOf Prod.fst Prod.snd (·.fullPath.length) (offersInto g c maxDepth entries changed)

theorem mem_offers_iff (present : ∀ f ∈ changed, g.function? f.id = some f)
    {p : DataPathKey × DataPath} :
    p ∈ offersInto g c maxDepth entries changed ↔
      ∃ f ∈ changed, ∃ e ∈ entries, ∃ v ∈ (Forward.visits f maxDepth).eval g.answers,
        ∃ hit ∈ hitsAt c v, dataPath (routesInto g maxDepth f) e hit = p := by
  constructor
  · intro member
    rcases List.mem_flatMap.mp member with ⟨found, isChanged, offered⟩
    rcases List.mem_map.mp isChanged with ⟨f, inside, rfl⟩
    rcases List.mem_flatMap.mp offered with ⟨e, entry, offered⟩
    rcases List.mem_map.mp offered with ⟨hit, isHit, same⟩
    rw [eval_hits g c maxDepth (present f inside)] at isHit
    rcases List.mem_flatMap.mp isHit with ⟨v, visited, isHit⟩
    exact ⟨f, inside, e, entry, v, visited, hit, isHit, same⟩
  · intro given
    rcases given with ⟨f, inside, e, entry, v, visited, hit, isHit, rfl⟩
    refine List.mem_flatMap.mpr ⟨_, List.mem_map_of_mem inside, ?_⟩
    refine List.mem_flatMap.mpr ⟨e, entry, List.mem_map_of_mem ?_⟩
    rw [eval_hits g c maxDepth (present f inside)]
    exact List.mem_flatMap.mpr ⟨v, visited, isHit⟩

theorem bestPaths_complete (present : ∀ f ∈ changed, g.function? f.id = some f)
    {e : AffectedFunction} (entry : e ∈ entries) {h : FunctionNode}
    (reached : Reaches g maxDepth changed h) {a : DataAccess}
    (sensitive : a ∈ sensitiveAccesses c h) :
    ∃ p, (bestPaths g c maxDepth entries changed).get? (keyOf e.id h a) = some p := by
  rcases (reaches_iff_visited present).mp reached with ⟨f, inside, v, visited, rfl⟩
  have offered := (@mem_offers_iff g c maxDepth changed entries present _).mpr
    ⟨f, inside, e, entry, v, visited, _, List.mem_map_of_mem sensitive, rfl⟩
  exact Dict.get?_shortestOf_isSome offered

theorem offered_of_kept {k : DataPathKey} {p : DataPath}
    (kept : (bestPaths g c maxDepth entries changed).get? k = some p) :
    (k, p) ∈ offersInto g c maxDepth entries changed := by
  obtain ⟨q, rfl, rfl, best⟩ := Dict.exists_of_get?_shortestOf kept
  exact best.offered

theorem bestPaths_sound (present : ∀ f ∈ changed, g.function? f.id = some f) {k : DataPathKey}
    {p : DataPath} (kept : (bestPaths g c maxDepth entries changed).get? k = some p) :
    ∃ e ∈ entries, ∃ h, Reaches g maxDepth changed h ∧ p.entryPoint = e.id ∧
      p.accessorId = h.id := by
  rcases (mem_offers_iff present).mp (offered_of_kept kept) with
    ⟨f, inside, e, entry, v, visited, hit, isHit, same⟩
  have reached := (reaches_iff_visited present).mpr ⟨f, inside, v, visited, rfl⟩
  rcases List.mem_map.mp isHit with ⟨a, -, rfl⟩
  cases same
  exact ⟨e, entry, v.node, reached, rfl, rfl⟩

theorem bestPaths_lead (present : ∀ f ∈ changed, g.function? f.id = some f) {k : DataPathKey}
    {p : DataPath} (kept : (bestPaths g c maxDepth entries changed).get? k = some p) :
    ShowsLead g c k p := by
  obtain ⟨q, rfl, rfl, best⟩ := Dict.exists_of_get?_shortestOf kept
  obtain ⟨front, back, offers, longer⟩ := best.first
  obtain ⟨found, isChanged, inFound, _, through, ahead⟩ := split_flatMap offers
  obtain ⟨f, inside, rfl⟩ := List.mem_map.mp isChanged
  obtain ⟨e, -, ofEntry, _, into, ahead'⟩ := split_flatMap through
  rw [eval_hits g c maxDepth (present f inside), List.map_flatMap] at into
  obtain ⟨v, visited, before, _, hits, ahead''⟩ := split_flatMap into
  rcases leads_or_offered _ e v (function?_of_visit (present f inside) visited) hits with
    leads | ⟨r, earlier, same, short⟩
  · exact leads
  · have shorter := longer r (ahead r (ahead' r (ahead'' r earlier))) same
    exact absurd short (Nat.ne_of_gt shorter)

theorem mem_dataPathsOf_iff {p : DataPath} :
    p ∈ (dataPathsOf maxDepth entries
        (changed.map fun f => (f, (hits c maxDepth f).eval g.answers))).eval g.answers ↔
      ∃ k, (bestPaths g c maxDepth entries changed).get? k = some p := by
  simp only [dataPathsOf, Inquiry.eval_bind, Inquiry.eval_pure, eval_dataPathsFrom]
  rw [foldl_offer]
  have once : (bestPaths g c maxDepth entries changed).keys.Nodup := Dict.nodup_keys_shortestOf
  constructor
  · intro member
    rcases List.mem_map.mp member with ⟨⟨k, q⟩, kept, rfl⟩
    exact ⟨k, Dict.get?_of_mem once (List.mem_mergeSort.mp kept)⟩
  · intro given
    rcases given with ⟨k, kept⟩
    exact List.mem_map.mpr ⟨(k, p), List.mem_mergeSort.mpr (Dict.mem_of_get? kept), rfl⟩

end Shown

inductive Change where
  | file (path : String)
  | function (id : String)
  | named (name : String)

namespace Change

def functions (g : CallGraph) : Change → List FunctionNode
  | .file path => g.inFile path
  | .function id => (g.function? id).toList
  | .named name => g.select (·.isNamed name)

def impact (c : Classifier) (maxDepth : Option Nat) : Change → Inquiry Impact
  | .file path => ofFile c maxDepth path
  | .function id => ofFunction c maxDepth id
  | .named name => ofName c maxDepth name

def target : Change → String
  | .file path => path
  | .function id => id
  | .named name => name

theorem eval_impact (g : CallGraph) (c : Classifier) (maxDepth : Option Nat) (change : Change) :
    (change.impact c maxDepth).eval g.answers =
      (analyze c maxDepth change.target (change.functions g)).eval g.answers := by
  cases change <;>
    simp [impact, ofFile, ofFunction, ofName, target, functions, CallGraph.answers]

theorem present (g : CallGraph) (change : Change) :
    ∀ f ∈ change.functions g, g.function? f.id = some f := by
  intro f member
  cases change with
  | file path =>
    rcases List.mem_filterMap.mp member with ⟨id, -, found⟩
    rwa [CallGraph.id_of_function? found]
  | function id =>
    have found : g.function? id = some f := Option.mem_toList.mp member
    rwa [CallGraph.id_of_function? found]
  | named name =>
    have selected := List.mem_of_mem_filter (List.mem_mergeSort.mp member)
    rcases List.mem_map.mp selected with ⟨⟨id, h⟩, held, rfl⟩
    have own := g.keyed _ held
    exact own ▸ Dict.get?_of_mem g.once held

end Change

/-- Which sensitive accesses that a change reaches are shown, and when its risk is critical. -/
structure DataPathsExact (g : CallGraph) (c : Classifier) (maxDepth : Option Nat)
    (changed : List FunctionNode) (r : Impact) : Prop where
  shown_iff : ∀ e ∈ r.entryPoints, ∀ h, Reaches g maxDepth changed h →
    ∀ a ∈ h.dataAccess, c.classifyAccess a ≠ .unknown →
      ((∃ p ∈ r.dataPaths, p.entryPoint = e.id ∧ Shows c p h a) ↔
        ∃ b, Leads c h b ∧ b.table = a.table ∧ b.fields = a.fields ∧ b.operation = a.operation)
  /-- What is shown in place of an access that is not: the one that leads where it stands. -/
  lead_shown : ∀ e ∈ r.entryPoints, ∀ h, Reaches g maxDepth changed h →
    ∀ a ∈ h.dataAccess, c.classifyAccess a ≠ .unknown →
      ∃ b, Leads c h b ∧ samePlace b a = true ∧
        ∃ p ∈ r.dataPaths, p.entryPoint = e.id ∧ Shows c p h b
  /-- The paths to credentials are counted in a word, so there must be fewer than it can tell. -/
  critical_iff : r.dataPaths.countP (·.sensitivity == .credentials) < UInt32.size →
    (r.risk = .critical ↔ 75 ≤ r.riskScore ∨ r.entryPoints ≠ [] ∧
      ∃ h, Reaches g maxDepth changed h ∧ ∃ a, Leads c h a ∧ c.classifyAccess a = .credentials)

section Exact

variable {g : CallGraph} {c : Classifier} {maxDepth : Option Nat} {changed : List FunctionNode}

theorem dataPaths_ofChanged (target : String) :
    ((ofChanged c maxDepth target changed).eval g.answers).dataPaths =
      (dataPathsOf maxDepth (entriesInto g c maxDepth changed)
        (changed.map fun f => (f, (hits c maxDepth f).eval g.answers))).eval g.answers := by
  simp [ofChanged, eval_affectedOf, eval_hitsOfAll, ← entryPointsOf_hits, affectedBy]

theorem risk_ofChanged (target : String)
    (few : ((ofChanged c maxDepth target changed).eval g.answers).dataPaths.countP
      (·.sensitivity == .credentials) < UInt32.size) :
    ((ofChanged c maxDepth target changed).eval g.answers).risk = .critical ↔
      75 ≤ ((ofChanged c maxDepth target changed).eval g.answers).riskScore ∨
        ∃ p ∈ ((ofChanged c maxDepth target changed).eval g.answers).dataPaths,
          p.sensitivity = .credentials := by
  simp only [ofChanged, Inquiry.eval_bind, Inquiry.eval_pure] at few ⊢
  rw [Risk.level_critical_iff, List.mem_map]
  rwa [List.count, List.countP_map]

theorem shows_lead {entries : List AffectedFunction}
    (present : ∀ f ∈ changed, g.function? f.id = some f)
    {e : AffectedFunction} (entry : e ∈ entries) {h : FunctionNode}
    (reached : Reaches g maxDepth changed h) {b : DataAccess} (leads : Leads c h b) :
    ∃ p k, (bestPaths g c maxDepth entries changed).get? k = some p ∧ p.entryPoint = e.id ∧
      Shows c p h b := by
  rcases bestPaths_complete present entry reached (mem_of_leads leads) with ⟨p, kept⟩
  rcases bestPaths_lead present kept with ⟨k, a, held, first, same, shown⟩
  rcases keyOf_inj same with ⟨owner, id, place⟩
  obtain rfl := eq_of_reaches present reached held id
  obtain rfl := leads_unique leads first place
  exact ⟨p, _, kept, owner.symm, shown⟩

theorem lead_of_kept {entries : List AffectedFunction}
    (present : ∀ f ∈ changed, g.function? f.id = some f) {k : DataPathKey} {p : DataPath}
    (kept : (bestPaths g c maxDepth entries changed).get? k = some p) {h : FunctionNode}
    (reached : Reaches g maxDepth changed h) (accessor : p.accessorId = h.id) :
    ∃ b, Leads c h b ∧ Shows c p h b := by
  rcases bestPaths_lead present kept with ⟨holder, b, held, leads, -, shown⟩
  obtain rfl := eq_of_reaches present reached held (accessor.symm.trans shown.1)
  exact ⟨b, leads, shown⟩

theorem dataPathsExact_ofChanged (target : String)
    (present : ∀ f ∈ changed, g.function? f.id = some f) :
    DataPathsExact g c maxDepth changed
      ((ofChanged c maxDepth target changed).eval g.answers) where
  shown_iff := by
    intro e entry h reached a member sensitive
    rw [entryPoints_ofChanged] at entry
    rw [dataPaths_ofChanged]
    constructor
    · intro given
      rcases given with ⟨p, reported, owner, accessor, table, fields, operation, -⟩
      rcases mem_dataPathsOf_iff.mp reported with ⟨k, kept⟩
      rcases lead_of_kept present kept reached accessor with
        ⟨b, leads, -, table', fields', operation', -⟩
      exact ⟨b, leads, table' ▸ table, fields' ▸ fields, operation' ▸ operation⟩
    · intro given
      rcases given with ⟨b, leads, table, fields, operation⟩
      rcases shows_lead present entry reached leads with ⟨p, k, kept, owner, shown⟩
      refine ⟨p, mem_dataPathsOf_iff.mpr ⟨k, kept⟩, owner, ?_⟩
      rcases shown with ⟨accessor, table', fields', operation', class'⟩
      refine ⟨accessor, table'.trans table, fields'.trans fields, operation'.trans operation, ?_⟩
      rw [class', classifyAccess_congr c table fields]
  lead_shown := by
    intro e entry h reached a member sensitive
    rw [entryPoints_ofChanged] at entry
    rw [dataPaths_ofChanged]
    rcases exists_leads (mem_sensitiveAccesses.mpr ⟨member, sensitive⟩) with ⟨b, leads, place⟩
    rcases shows_lead present entry reached leads with ⟨p, k, kept, owner, shown⟩
    exact ⟨b, leads, place, p, mem_dataPathsOf_iff.mpr ⟨k, kept⟩, owner, shown⟩
  critical_iff few := by
    rw [risk_ofChanged target few, dataPaths_ofChanged, entryPoints_ofChanged]
    refine or_congr_right ⟨?_, ?_⟩
    · intro given
      rcases given with ⟨p, reported, credentials⟩
      rcases mem_dataPathsOf_iff.mp reported with ⟨k, kept⟩
      rcases bestPaths_sound present kept with ⟨e, entry, h, reached, -, accessor⟩
      rcases lead_of_kept present kept reached accessor with ⟨b, leads, shown⟩
      refine ⟨List.ne_nil_of_mem entry, h, reached, b, leads, ?_⟩
      rw [← shown.2.2.2.2, credentials]
    · intro given
      rcases given with ⟨some, h, reached, b, leads, credentials⟩
      rcases List.exists_mem_of_ne_nil _ some with ⟨e, entry⟩
      rcases shows_lead present entry reached leads with ⟨p, k, kept, -, shown⟩
      refine ⟨p, mem_dataPathsOf_iff.mpr ⟨k, kept⟩, ?_⟩
      rw [shown.2.2.2.2, credentials]

theorem dataPathsExact_congr {other : List FunctionNode} {r : Impact}
    (exact : DataPathsExact g c maxDepth changed r) (same : ∀ f, f ∈ changed ↔ f ∈ other) :
    DataPathsExact g c maxDepth other r := by
  have reaches : Reaches g maxDepth changed = Reaches g maxDepth other := by
    funext h
    simp only [Reaches, same]
  rcases exact with ⟨shown, lead, critical⟩
  rw [reaches] at shown lead critical
  exact ⟨shown, lead, critical⟩

theorem dataPathsExact_nil (target : String) :
    DataPathsExact g c maxDepth [] ((analyze c maxDepth target []).eval g.answers) := by
  have low : (analyze c maxDepth target []).eval g.answers = { target } ∨
      ∃ e, (analyze c maxDepth target []).eval g.answers =
        { target, graphMissing := some e } := by
    by_cases built : g.functions.isEmpty <;>
      simp [analyze, Inquiry.missing?, CallGraph.answers, built]
  rcases low with report | ⟨e, report⟩
  all_goals
    rw [report]
    constructor
    · intro _ entry
      cases entry
    · intro _ entry
      cases entry
    · simp

end Exact

/-- A sensitive access is shown when its like leads at some place, and only then. -/
theorem data_paths_exact (g : CallGraph) (c : Classifier) (maxDepth : Option Nat)
    (change : Change) :
    DataPathsExact g c maxDepth (change.functions g)
      ((change.impact c maxDepth).eval g.answers) := by
  rw [change.eval_impact]
  have present := change.present g
  generalize change.functions g = changed at present
  by_cases nonempty : changed = []
  · rw [nonempty]
    exact dataPathsExact_nil change.target
  · rw [eval_analyze g c maxDepth change.target nonempty present]
    have same := mem_distinctById present
    have held : ∀ f ∈ distinctById changed, g.function? f.id = some f := fun f member =>
      present f ((same f).mp member)
    exact dataPathsExact_congr (dataPathsExact_ofChanged change.target held) same

def emailRead : DataAccess := ⟨"users", .read, 5, ["email"]⟩

def passwordRead : DataAccess := ⟨"users", .read, 5, ["password"]⟩

def login : FunctionNode where
  id := "a.py:login:1"
  name := "login"
  qualifiedName := "login"
  file := "a.py"
  startLine := 1
  endLine := 9
  isEntryPoint := true
  isDataAccessor := true
  calls := []
  calledBy := []
  dataAccess := [emailRead, passwordRead]

def loginGraph : CallGraph := .ofShards [⟨"a.py", [login]⟩]

/-- The password is read by an entry point that changed, but no path shows it and the risk is not
critical. -/
theorem password_dropped :
    let r := ((Change.function login.id).impact .standard none).eval loginGraph.answers
    (∃ e ∈ r.entryPoints, e.id = login.id) ∧
      Reaches loginGraph none ((Change.function login.id).functions loginGraph) login ∧
      passwordRead ∈ login.dataAccess ∧
      Classifier.standard.classifyAccess passwordRead = .credentials ∧
      (¬ ∃ p ∈ r.dataPaths, p.entryPoint = login.id ∧
        Shows .standard p login passwordRead) ∧
      r.risk ≠ .critical := by
  intro r
  have changed : (Change.function login.id).functions loginGraph = [login] := rfl
  have reached : Reaches loginGraph none [login] login :=
    ⟨login, List.mem_singleton.mpr rfl, 0, .here rfl, .inl (Nat.zero_le _)⟩
  have outcome : (∃ e ∈ r.entryPoints, e.id = login.id) ∧
      (¬ ∃ p ∈ r.dataPaths, p.entryPoint = login.id ∧ Shows .standard p login passwordRead) ∧
      r.risk ≠ .critical := by
    unfold Shows
    decide +kernel
  rcases outcome with ⟨entered, dropped, risk⟩
  exact ⟨entered, changed ▸ reached, by decide, by decide +kernel, dropped, risk⟩

end Impact

end DataReach
