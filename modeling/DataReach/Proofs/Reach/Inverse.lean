import DataReach.Reach.Inverse
import DataReach.Proofs.Reach.Backward
import DataReach.Proofs.Shortest
import DataReach.Proofs.Sorting
/-!
The inverse search is exact. It reports the entry points from which callers lead to an accessor past
no other entry point, each with a shortest such chain; of the accessors at the end of equally short
chains the one with the least id is named.
-/

namespace DataReach

namespace CallGraph

/-- Each function of the chain is among the recorded callers of the next one. The first is an entry
point, and no other one is. -/
structure EntryChain (g : CallGraph) (entry accessor : FunctionNode) (chain : List FunctionNode) :
    Prop where
  present : ∀ f ∈ chain, g.function? f.id = some f
  first : chain.head? = some entry
  last : chain.getLast? = some accessor
  linked : chain.IsChain fun x y => g.HasCaller y x
  isEntry : entry.isEntryPoint = true
  inner : ∀ f ∈ chain.tail, f.isEntryPoint = false

variable {g : CallGraph}

theorem EntryChain.entryPresent {entry accessor : FunctionNode} {chain : List FunctionNode}
    (isChain : g.EntryChain entry accessor chain) : g.function? entry.id = some entry :=
  isChain.present entry (List.mem_of_mem_head? isChain.first)

theorem EntryChain.accessorPresent {entry accessor : FunctionNode} {chain : List FunctionNode}
    (isChain : g.EntryChain entry accessor chain) : g.function? accessor.id = some accessor :=
  isChain.present accessor (List.mem_of_mem_getLast? isChain.last)

theorem EntryChain.nonempty {entry accessor : FunctionNode} {chain : List FunctionNode}
    (isChain : g.EntryChain entry accessor chain) : 0 < chain.length :=
  List.length_pos_of_mem (List.mem_of_mem_head? isChain.first)

theorem isChain_climbs_iff {stop : FunctionNode → Bool} {chain : List FunctionNode} :
    chain.IsChain (fun x y => g.Climbs stop y x) ↔
      chain.IsChain (fun x y => g.HasCaller y x) ∧ ∀ f ∈ chain.tail, stop f = false := by
  induction chain with
  | nil => simp
  | cons x rest ih =>
    cases rest with
    | nil => simp
    | cons y others =>
      rw [List.isChain_cons_cons, List.isChain_cons_cons, ih]
      simp only [Climbs, List.tail_cons, List.mem_cons, forall_eq_or_imp]
      tauto

theorem present_of_climb {stop : FunctionNode → Bool} {seeds items : List FunctionNode} {n : Nat}
    {f : FunctionNode} (present : ∀ f ∈ seeds, g.function? f.id = some f)
    (walk : WalkOf (· ∈ seeds) (g.Climbs stop) n f items) :
    ∀ h ∈ items, g.function? h.id = some h := by
  apply walk.linked.induction
  · intro x y link _
    exact function?_of_hasCaller link.2
  · intro nonempty
    obtain ⟨s, seed, head⟩ := walk.first
    have same : items.head nonempty = s := by
      rw [List.head?_eq_some_head nonempty] at head
      exact Option.some.inj head
    rw [same]
    exact present s seed

theorem entryChain_iff_walkOf {entry accessor : FunctionNode} {chain : List FunctionNode}
    (present : g.function? accessor.id = some accessor) :
    g.EntryChain entry accessor chain ↔ entry.isEntryPoint = true ∧
      WalkOf (· ∈ [accessor]) (g.Climbs (·.isEntryPoint)) (chain.length - 1) entry
        chain.reverse := by
  constructor
  · intro given
    have nonempty := given.nonempty
    refine ⟨given.isEntry, ⟨accessor, List.mem_singleton_self _, ?_⟩, ?_, ?_, ?_⟩
    · simpa using given.last
    · simpa using given.first
    · rw [List.length_reverse]
      omega
    · exact List.isChain_reverse.mpr (isChain_climbs_iff.mpr ⟨given.linked, given.inner⟩)
  · intro given
    obtain ⟨isEntry, walk⟩ := given
    have held : ∀ f ∈ [accessor], g.function? f.id = some f := by
      simpa using present
    obtain ⟨linked, inner⟩ := isChain_climbs_iff.mp (List.isChain_reverse.mp walk.linked)
    refine ⟨?_, by simpa using walk.last, ?_, linked, isEntry, inner⟩
    · intro f member
      exact present_of_climb held walk f (List.mem_reverse.mpr member)
    · obtain ⟨s, seed, head⟩ := walk.first
      rw [List.mem_singleton.mp seed] at head
      simpa using head

theorem EntryChain.exists_lt_size {entry accessor : FunctionNode} {chain : List FunctionNode}
    (isChain : g.EntryChain entry accessor chain) :
    ∃ shorter, g.EntryChain entry accessor shorter ∧ shorter.length ≤ g.size := by
  have present : ∀ f ∈ [accessor], g.function? f.id = some f := by
    simpa using isChain.accessorPresent
  obtain ⟨isEntry, walk⟩ := (entryChain_iff_walkOf isChain.accessorPresent).mp isChain
  obtain ⟨n, -, distance⟩ := walk_distance (walkOf_walk walk)
  have bound := distance_lt_size present (fun _ _ link => function?_of_hasCaller link.2) distance
  obtain ⟨items, shortest⟩ := exists_walkOf distance.1
  have length : items.reverse.length = n + 1 := by
    rw [List.length_reverse, shortest.length]
  refine ⟨items.reverse, ?_, by omega⟩
  refine (entryChain_iff_walkOf isChain.accessorPresent).mpr ⟨isEntry, ?_⟩
  rwa [length, Nat.add_sub_cancel, List.reverse_reverse]

theorem mem_select {p : FunctionNode → Bool} {f : FunctionNode} :
    f ∈ g.select p ↔ g.function? f.id = some f ∧ p f = true := by
  rw [select, List.mem_mergeSort, List.mem_filter]
  refine and_congr_left fun _ => ?_
  constructor
  · intro member
    obtain ⟨⟨id, h⟩, held, same⟩ := List.mem_map.mp member
    cases same
    have own : h.id = id := g.keyed _ held
    rw [own]
    exact Dict.get?_of_mem g.once held
  · intro found
    exact List.mem_map.mpr ⟨_, Dict.mem_of_get? found, rfl⟩

end CallGraph

theorem InverseProgress.offer_eq (best : Dict String InversePath) (p : InversePath) :
    offer best p = best.keepShorter (·.path.length) p.entryPoint p := by
  rw [offer, Dict.keepShorter]
  cases best.get? p.entryPoint <;> rfl

namespace InverseReach

section Offers

variable (g : CallGraph) (table : String) (field : Option String) (maxDepth : Option Nat)

def offersFrom (f : FunctionNode) : List InversePath :=
  match f.dataAccess.find? (·.matches table field) with
  | none => []
  | some access =>
    let climb := (Backward.climb (·.isEntryPoint) [f] maxDepth).eval g.answers
    (climb.found.filter (·.1.isEntryPoint)).map fun e =>
      ⟨e.1.id, climb.links.unwind e.1.id, f.id, access⟩

def offers : List InversePath :=
  (g.select (·.accesses table field)).flatMap (offersFrom g table field maxDepth)

theorem best_searches (progress : InverseProgress) (accessors : List FunctionNode) :
    ((searches table field maxDepth progress accessors).eval g.answers).best =
      (accessors.flatMap (offersFrom g table field maxDepth)).foldl InverseProgress.offer
        progress.best := by
  induction accessors generalizing progress with
  | nil => rfl
  | cons f rest ih =>
    rw [searches, List.flatMap_cons, List.foldl_append, offersFrom]
    cases f.dataAccess.find? (·.matches table field) with
    | none => exact ih progress
    | some access =>
      rw [Inquiry.eval_bind, ih]
      rfl

/-- A report lists the best offers by entry point; without functions there are none. -/
theorem paths_toData :
    ((toData table field maxDepth).eval g.answers).paths =
      (Dict.shortestOf InversePath.entryPoint id (·.path.length)
        (offers g table field maxDepth)).values.mergeSort
          fun a b => decide (a.entryPoint ≤ b.entryPoint) := by
  by_cases built : g.functions.isEmpty
  · have nothing : g.functions = [] := List.isEmpty_iff.mp built
    simp [toData, Inquiry.missing?, CallGraph.answers, offers, CallGraph.select, nothing,
      Dict.values, Dict.shortestOf]
  · have best := best_searches g table field maxDepth {} (g.select (·.accesses table field))
    simp only [toData, Inquiry.missing?, Inquiry.eval_bind, Inquiry.eval_isBuilt,
      CallGraph.answers, built, Bool.not_false, if_true, Inquiry.eval_pure, Inquiry.eval_accessing,
      best]
    rw [Dict.shortestOf, offers, funext fun best => funext (InverseProgress.offer_eq best)]
    rfl

end Offers

section Exact

variable {g : CallGraph} {table : String} {field : Option String} {maxDepth : Option Nat}

theorem mem_offersFrom {f : FunctionNode} {p : InversePath} :
    p ∈ offersFrom g table field maxDepth f ↔
      f.dataAccess.find? (·.matches table field) = some p.access ∧ p.accessorId = f.id ∧
        ∃ entry ∈ ((Backward.climb (·.isEntryPoint) [f] maxDepth).eval g.answers).found,
          entry.1.isEntryPoint = true ∧ p.entryPoint = entry.1.id ∧
          p.path = ((Backward.climb (·.isEntryPoint) [f] maxDepth).eval g.answers).links.unwind
            entry.1.id := by
  rw [offersFrom]
  cases found : f.dataAccess.find? (·.matches table field) with
  | none => simp
  | some access =>
    simp only [List.mem_map, List.mem_filter]
    constructor
    · intro given
      obtain ⟨entry, ⟨member, isEntry⟩, rfl⟩ := given
      exact ⟨rfl, rfl, entry, member, isEntry, rfl, rfl⟩
    · intro given
      obtain ⟨same, accessor, entry, member, isEntry, id, path⟩ := given
      cases same
      exact ⟨entry, ⟨member, isEntry⟩, by rw [← path, ← id, ← accessor]⟩

theorem offersFrom_sound {f : FunctionNode} (present : g.function? f.id = some f) {p : InversePath}
    (offered : p ∈ offersFrom g table field maxDepth f) :
    ∃ e chain, g.EntryChain e f chain ∧ chain.length ≤ maxDepth.getD depthLimit + 1 ∧
      p.entryPoint = e.id ∧ p.path = chain.map .ofFunction ∧
      ∀ other, g.EntryChain e f other → chain.length ≤ other.length := by
  have held : ∀ h ∈ [f], g.function? h.id = some h := by simpa using present
  have climb := Backward.climb_exact (·.isEntryPoint) maxDepth held (List.nodup_singleton f)
  obtain ⟨-, -, entry, member, isEntry, id, unwound⟩ := mem_offersFrom.mp offered
  obtain ⟨-, bound, distance⟩ := climb.1.sound entry member
  obtain ⟨items, walk, path⟩ := climb.2 entry member
  have length : items.reverse.length = entry.2 + 1 := by
    rw [List.length_reverse, walk.length]
  refine ⟨entry.1, items.reverse, ?_, by omega, id, unwound.trans path, ?_⟩
  · refine (CallGraph.entryChain_iff_walkOf present).mpr ⟨isEntry, ?_⟩
    rwa [length, Nat.add_sub_cancel, List.reverse_reverse]
  · intro other isChain
    have shortest := distance.2 _
      (walkOf_walk ((CallGraph.entryChain_iff_walkOf present).mp isChain).2)
    have nonempty := isChain.nonempty
    omega

theorem offersFrom_complete {e f : FunctionNode} {chain : List FunctionNode}
    (present : g.function? f.id = some f) (accesses : f.accesses table field = true)
    (isChain : g.EntryChain e f chain) (within : chain.length ≤ maxDepth.getD depthLimit + 1) :
    ∃ p ∈ offersFrom g table field maxDepth f, p.entryPoint = e.id := by
  have held : ∀ h ∈ [f], g.function? h.id = some h := by simpa using present
  have climb := Backward.climb_exact (·.isEntryPoint) maxDepth held (List.nodup_singleton f)
  obtain ⟨isEntry, walk⟩ := (CallGraph.entryChain_iff_walkOf present).mp isChain
  obtain ⟨n, shorter, distance⟩ := walk_distance (walkOf_walk walk)
  obtain ⟨entry, member, same⟩ := climb.1.complete n e distance (Nat.zero_le n) (by omega)
  have some : (f.dataAccess.find? (·.matches table field)).isSome = true := by
    rw [List.find?_isSome]
    exact List.any_eq_true.mp accesses
  obtain ⟨access, found⟩ := Option.isSome_iff_exists.mp some
  refine ⟨⟨e.id, _, f.id, access⟩, mem_offersFrom.mpr ⟨found, rfl, entry, member, ?_, ?_, rfl⟩, rfl⟩
  · rw [same, isEntry]
  · rw [same]

theorem offers_sound {p : InversePath} (offered : p ∈ offers g table field maxDepth) :
    ∃ e a chain, g.EntryChain e a chain ∧ a.accesses table field = true ∧
      chain.length ≤ maxDepth.getD depthLimit + 1 ∧ p.entryPoint = e.id ∧ p.accessorId = a.id ∧
      p.path = chain.map .ofFunction ∧
      a.dataAccess.find? (·.matches table field) = some p.access := by
  obtain ⟨a, selected, own⟩ := List.mem_flatMap.mp offered
  obtain ⟨present, accesses⟩ := CallGraph.mem_select.mp selected
  obtain ⟨e, chain, isChain, within, id, path, -⟩ := offersFrom_sound present own
  obtain ⟨found, accessor, -⟩ := mem_offersFrom.mp own
  exact ⟨e, a, chain, isChain, accesses, within, id, accessor, path, found⟩

theorem offers_complete {e a : FunctionNode} {chain : List FunctionNode}
    (accesses : a.accesses table field = true) (isChain : g.EntryChain e a chain)
    (within : chain.length ≤ maxDepth.getD depthLimit + 1) :
    ∃ p ∈ offers g table field maxDepth, p.entryPoint = e.id ∧ p.accessorId = a.id ∧
      p.path.length ≤ chain.length := by
  have present := isChain.accessorPresent
  obtain ⟨p, own, id⟩ := offersFrom_complete present accesses isChain within
  have offered : p ∈ offers g table field maxDepth :=
    List.mem_flatMap.mpr ⟨a, CallGraph.mem_select.mpr ⟨present, accesses⟩, own⟩
  refine ⟨p, offered, id, (mem_offersFrom.mp own).2.1, ?_⟩
  obtain ⟨other, shortest, isShortest, -, otherId, path, least⟩ := offersFrom_sound present own
  have same : other = e :=
    CallGraph.eq_of_id isShortest.entryPresent isChain.entryPresent (otherId.symm.trans id)
  rw [path, List.length_map]
  exact least chain (same ▸ isChain)

theorem offers_ascending :
    (offers g table field maxDepth).Pairwise (·.accessorId ≤ ·.accessorId) := by
  have sorted := mergeSort_sorted FunctionNode.id
    (g.functions.values.filter (·.accesses table field))
  refine List.pairwise_flatMap.mpr ⟨?_, sorted.imp ?_⟩
  · intro a _
    refine List.pairwise_of_forall_mem_list fun p first q second => ?_
    have same : p.accessorId = q.accessorId :=
      (mem_offersFrom.mp first).2.1.trans (mem_offersFrom.mp second).2.1.symm
    exact same ▸ String.le_refl _
  · intro a b le p first q second
    rw [(mem_offersFrom.mp first).2.1, (mem_offersFrom.mp second).2.1]
    exact le

theorem accessor_le_of_firstShortest {p q : InversePath}
    (best : FirstShortest InversePath.entryPoint (·.path.length) (offers g table field maxDepth) p)
    (offered : q ∈ offers g table field maxDepth) (same : q.entryPoint = p.entryPoint)
    (equal : q.path.length = p.path.length) : p.accessorId ≤ q.accessorId := by
  obtain ⟨front, back, split, above⟩ := best.first
  have ascending := @offers_ascending g table field maxDepth
  rw [split] at offered ascending
  rcases List.mem_append.mp offered with before | behind
  · have longer := above q before same
    omega
  · rcases List.mem_cons.mp behind with rfl | after
    · exact String.le_refl _
    · exact List.rel_of_pairwise_cons (List.pairwise_append.mp ascending).2.1 after

theorem mem_entryPoints_iff {e : FunctionNode} (present : g.function? e.id = some e) :
    e.id ∈ ((toData table field maxDepth).eval g.answers).entryPoints ↔
      ∃ a chain, a.accesses table field = true ∧ g.EntryChain e a chain ∧
        chain.length ≤ maxDepth.getD depthLimit + 1 := by
  rw [entryPoints, paths_toData, List.mem_map]
  simp only [List.mem_mergeSort]
  constructor
  · intro given
    obtain ⟨p, kept, id⟩ := given
    have offered := (Dict.mem_values_shortestOf kept).2.offered
    obtain ⟨other, a, chain, isChain, accesses, within, own, -⟩ := offers_sound offered
    have same : other = e := CallGraph.eq_of_id isChain.entryPresent present (own.symm.trans id)
    exact ⟨a, chain, accesses, same ▸ isChain, within⟩
  · intro given
    obtain ⟨a, chain, accesses, isChain, within⟩ := given
    obtain ⟨p, offered, id, -⟩ := offers_complete accesses isChain within
    obtain ⟨q, kept, same⟩ :=
      @Dict.exists_shortestOf _ _ _ InversePath.entryPoint (·.path.length) _ _ offered
    exact ⟨q, kept, same.trans id⟩

theorem described_toData {p : InversePath}
    (reported : p ∈ ((toData table field maxDepth).eval g.answers).paths) :
    ∃ e a chain, g.EntryChain e a chain ∧ chain.length ≤ maxDepth.getD depthLimit + 1 ∧
      p.entryPoint = e.id ∧ p.accessorId = a.id ∧ p.path = chain.map .ofFunction ∧
      a.dataAccess.find? (·.matches table field) = some p.access ∧
      ∀ b other, b.accesses table field = true → g.EntryChain e b other →
        chain.length ≤ other.length ∧ (other.length = chain.length → a.id ≤ b.id) := by
  rw [paths_toData, List.mem_mergeSort] at reported
  have best := (Dict.mem_values_shortestOf reported).2
  obtain ⟨e, a, chain, isChain, -, within, id, accessor, path, found⟩ := offers_sound best.offered
  refine ⟨e, a, chain, isChain, within, id, accessor, path, found,
    fun b other accesses isOther => ?_⟩
  have length : p.path.length = chain.length := by rw [path, List.length_map]
  -- A longer chain needs no offer of its own.
  by_cases long : chain.length < other.length
  · exact ⟨Nat.le_of_lt long, fun equal => by omega⟩
  · obtain ⟨q, offered, entry, end', shorter⟩ :=
      @offers_complete g table field maxDepth _ _ _ accesses isOther (by omega)
    have same : q.entryPoint = p.entryPoint := entry.trans id.symm
    have least := best.shortest q offered same
    refine ⟨by omega, fun equal => ?_⟩
    rw [← accessor, ← end']
    exact accessor_le_of_firstShortest best offered same (by omega)

theorem entryPoints_ascending :
    ((toData table field maxDepth).eval g.answers).entryPoints.Pairwise (· < ·) := by
  rw [entryPoints, paths_toData, List.pairwise_map]
  exact mergeSort_ascending InversePath.entryPoint _ Dict.nodup_values_shortestOf

end Exact

/-- A report says which entry points reach the data, and by which chain each does so first. -/
structure InverseExact (g : CallGraph) (table : String) (field : Option String)
    (maxDepth : Option Nat) (r : InverseReach) : Prop where
  reported_iff : ∀ e, g.function? e.id = some e → (e.id ∈ r.entryPoints ↔
    ∃ a chain, a.accesses table field = true ∧ g.EntryChain e a chain ∧
      chain.length ≤ maxDepth.getD depthLimit + 1)
  /-- Without a bound it is the number of functions that keeps depths below the limit. -/
  unbounded : maxDepth = none → g.size ≤ depthLimit → ∀ e, g.function? e.id = some e →
    (e.id ∈ r.entryPoints ↔ ∃ a chain, a.accesses table field = true ∧ g.EntryChain e a chain)
  described : ∀ p ∈ r.paths, ∃ e a chain, g.EntryChain e a chain ∧
    chain.length ≤ maxDepth.getD depthLimit + 1 ∧ p.entryPoint = e.id ∧ p.accessorId = a.id ∧
    p.path = chain.map .ofFunction ∧
    a.dataAccess.find? (·.matches table field) = some p.access ∧
    ∀ b other, b.accesses table field = true → g.EntryChain e b other →
      chain.length ≤ other.length ∧ (other.length = chain.length → a.id ≤ b.id)
  ascending : r.entryPoints.Pairwise (· < ·)
  listed : r.entryPoints = r.paths.map (·.entryPoint)

/-- Inverse reachability. An entry point is reported once, since the ids ascend strictly. -/
theorem inverse_exact (g : CallGraph) (table : String) (field : Option String)
    (maxDepth : Option Nat) :
    InverseExact g table field maxDepth ((toData table field maxDepth).eval g.answers) where
  reported_iff := fun _ present => mem_entryPoints_iff present
  unbounded := by
    rintro rfl small e present
    rw [mem_entryPoints_iff present]
    constructor
    · intro given
      obtain ⟨a, chain, accesses, isChain, -⟩ := given
      exact ⟨a, chain, accesses, isChain⟩
    · intro given
      obtain ⟨a, chain, accesses, isChain⟩ := given
      obtain ⟨shorter, isShorter, bound⟩ := isChain.exists_lt_size
      exact ⟨a, shorter, accesses, isShorter, by simp only [Option.getD_none]; omega⟩
  described := fun _ reported => described_toData reported
  ascending := entryPoints_ascending
  listed := rfl

end InverseReach

end DataReach
