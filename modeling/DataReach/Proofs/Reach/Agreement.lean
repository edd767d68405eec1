import DataReach.Proofs.Converse
import DataReach.Proofs.Reach.Data
import DataReach.Proofs.Reach.Inverse
/-!
The forward and the inverse search agree where shards are linked. The inverse search stops at the
first entry point it climbs to, which is the last one on a chain of calls; every other entry point
that reaches the data comes past such a one.
-/

namespace DataReach

namespace CallGraph

variable {g : CallGraph} {e f h : FunctionNode} {chain : List FunctionNode}

theorem entryChain_single (present : g.function? e.id = some e) (isEntry : e.isEntryPoint = true) :
    g.EntryChain e e [e] where
  present := by simpa using present
  first := rfl
  last := rfl
  linked := .singleton e
  isEntry := isEntry
  inner := fun _ member => nomatch member

theorem entryChain_append (isChain : g.EntryChain e f chain) (present : g.function? h.id = some h)
    (link : g.HasCaller h f) (plain : h.isEntryPoint = false) :
    g.EntryChain e h (chain ++ [h]) where
  present := by
    intro k member
    rcases List.mem_append.mp member with early | last
    · exact isChain.present k early
    · rwa [List.mem_singleton.mp last]
  first := by simp [List.head?_append, isChain.first]
  last := by simp
  linked := by
    refine List.isChain_append.mpr ⟨isChain.linked, .singleton h, fun x last y first => ?_⟩
    rw [isChain.last] at last
    cases last
    cases first
    exact link
  isEntry := isChain.isEntry
  inner := by
    rw [List.tail_append_of_ne_nil (List.ne_nil_of_length_pos isChain.nonempty)]
    intro k member
    rcases List.mem_append.mp member with early | last
    · exact isChain.inner k early
    · rwa [List.mem_singleton.mp last]

theorem walk_of_entryChain (mirrored : g.Mirrored) (isChain : g.EntryChain e f chain) :
    Walk (· = e) g.Calls (chain.length - 1) f := by
  have calls : chain.IsChain g.Calls := by
    refine isChain.linked.imp_of_mem_imp fun x y first second link => ?_
    exact (mirrored y x (isChain.present y second) (isChain.present x first)).mp link
  have nonempty := isChain.nonempty
  exact walkOf_walk ⟨⟨e, rfl, isChain.first⟩, isChain.last, by omega, calls⟩

theorem exists_last_entry (mirrored : g.Mirrored) {n : Nat} (present : g.function? e.id = some e)
    (isEntry : e.isEntryPoint = true) (walk : Walk (· = e) g.Calls n f) :
    ∃ k i chain, Walk (· = e) g.Calls i k ∧ g.EntryChain k f chain ∧ i + chain.length = n + 1 := by
  have start : ∀ k, k = e → g.function? k.id = some k := fun k same => same ▸ present
  induction walk with
  | here same =>
    cases same
    exact ⟨e, 0, [e], .here rfl, entryChain_single present isEntry, rfl⟩
  | @next n f h before link ih =>
    have reached := function?_of_calls link
    by_cases entry : h.isEntryPoint = true
    · exact ⟨h, n + 1, [h], .next before link, entryChain_single reached entry, rfl⟩
    · obtain ⟨k, i, chain, first, second, length⟩ := ih
      have passed := exists_of_walk start (fun _ _ => function?_of_calls) before
      have caller := (mirrored h f reached passed).mpr link
      have plain : h.isEntryPoint = false := by simpa using entry
      have longer := entryChain_append second reached caller plain
      refine ⟨k, i, chain ++ [h], first, longer, ?_⟩
      rw [List.length_append, List.length_singleton]
      omega

end CallGraph

namespace Reach

variable {g : CallGraph} {c : Classifier} {f : FunctionNode}

theorem accesses_fromFunction (present : g.function? f.id = some f) :
    ((fromFunction c {} f.id).eval g.answers).accesses =
      ((Forward.visits f none).eval g.answers).flatMap fun v =>
        v.node.dataAccess.map fun a => ⟨v.node.id, v.node.file, a, v.path, v.depth⟩ := by
  have built : g.functions.isEmpty = false := by
    simp [List.ne_nil_of_mem (Dict.mem_of_get? present)]
  have whole : (fromFunction c {} f.id).eval g.answers = (forward c {} f.id).eval g.answers := by
    simp [fromFunction, Inquiry.missing?, CallGraph.answers, built]
  rw [whole, eval_forward g c {} present]
  exact accesses_ofVisits c none _ _

theorem walk_of_access (present : g.function? f.id = some f) {x : ReachedAccess}
    (reached : x ∈ ((fromFunction c {} f.id).eval g.answers).accesses) :
    ∃ h, x.functionId = h.id ∧ x.access ∈ h.dataAccess ∧ Walk (· = f) g.Calls x.depth h ∧
      x.depth ≤ depthLimit := by
  rw [accesses_fromFunction present] at reached
  obtain ⟨v, visited, own⟩ := List.mem_flatMap.mp reached
  obtain ⟨access, member, rfl⟩ := List.mem_map.mp own
  obtain ⟨-, within, distance⟩ := (Forward.covers_visits present none).1.sound v visited
  exact ⟨v.node, rfl, member, distance.1, within⟩

theorem access_of_walk (present : g.function? f.id = some f) {h : FunctionNode} {n : Nat}
    {access : DataAccess} (walk : Walk (· = f) g.Calls n h) (within : n ≤ depthLimit)
    (member : access ∈ h.dataAccess) :
    ∃ x ∈ ((fromFunction c {} f.id).eval g.answers).accesses,
      x.functionId = h.id ∧ x.access = access ∧ x.depth ≤ n := by
  obtain ⟨m, shorter, distance⟩ := walk_distance walk
  have covers := (Forward.covers_visits present none).1
  obtain ⟨v, visited, rfl, rfl⟩ := (covers_mem_iff covers m h).mpr
    ⟨distance, Nat.zero_le m, Nat.le_trans shorter within⟩
  rw [accesses_fromFunction present]
  exact ⟨_, List.mem_flatMap.mpr ⟨v, visited, List.mem_map_of_mem member⟩, rfl, rfl, shorter⟩

end Reach

namespace InverseReach

/-- What the inverse search reports against what the entry points reach. -/
structure AgreesWithForward (g : CallGraph) (c : Classifier) (table : String)
    (field : Option String) : Prop where
  reached : ∀ p ∈ ((toData table field none).eval g.answers).paths,
    ∃ x ∈ ((Reach.fromFunction c {} p.entryPoint).eval g.answers).accesses,
      x.functionId = p.accessorId ∧ x.access.matches table field = true ∧
      x.depth + 1 ≤ p.path.length
  /-- The way to an access leads through an entry point that is reported and itself reaches it. -/
  covered : ∀ e, g.function? e.id = some e → e.isEntryPoint = true →
    ∀ x ∈ ((Reach.fromFunction c {} e.id).eval g.answers).accesses,
      x.access.matches table field = true →
      ∃ k h i j, k.id ∈ ((toData table field none).eval g.answers).entryPoints ∧
        g.function? k.id = some k ∧ k.isEntryPoint = true ∧
        x.functionId = h.id ∧ x.access ∈ h.dataAccess ∧
        Walk (· = e) g.Calls i k ∧ Walk (· = k) g.Calls j h ∧ i + j = x.depth ∧
        ∃ y ∈ ((Reach.fromFunction c {} k.id).eval g.answers).accesses,
          y.functionId = x.functionId ∧ y.access = x.access ∧ y.depth ≤ j

/-- Forward and inverse reachability agree, for shards that are linked with each other. -/
theorem inverse_agrees (shards : List Shard) (c : Classifier) (table : String)
    (field : Option String) (once : ((shards.flatMap (·.functions)).map (·.id)).Nodup) :
    AgreesWithForward (.ofLinked shards) c table field := by
  have mirrored := CallGraph.mirrored_ofLinked once
  constructor
  · intro p reported
    obtain ⟨e, a, chain, isChain, within, entry, accessor, path, found, -⟩ :=
      described_toData reported
    have walk := CallGraph.walk_of_entryChain mirrored isChain
    have short : chain.length - 1 ≤ depthLimit := Nat.sub_le_of_le_add within
    have member := List.mem_of_find?_eq_some found
    have isMatch : p.access.matches table field = true := by simpa using List.find?_some found
    obtain ⟨x, there, id, same, depth⟩ :=
      Reach.access_of_walk (c := c) isChain.entryPresent walk short member
    rw [entry, accessor, path, List.length_map]
    have nonempty := isChain.nonempty
    exact ⟨x, there, id, same ▸ isMatch, by omega⟩
  · intro e present isEntry x there isMatch
    obtain ⟨h, id, member, walk, within⟩ := Reach.walk_of_access present there
    obtain ⟨k, i, chain, first, isChain, length⟩ :=
      CallGraph.exists_last_entry mirrored present isEntry walk
    have second := CallGraph.walk_of_entryChain mirrored isChain
    have nonempty := isChain.nonempty
    have bound : chain.length ≤ (none : Option Nat).getD depthLimit + 1 := by
      rw [Option.getD_none]
      omega
    have accesses : h.accesses table field = true := List.any_eq_true.mpr ⟨x.access, member, isMatch⟩
    have listed := (mem_entryPoints_iff isChain.entryPresent).mpr ⟨h, chain, accesses, isChain, bound⟩
    obtain ⟨y, also, same, access, near⟩ :=
      Reach.access_of_walk (c := c) isChain.entryPresent second (by omega) member
    exact ⟨k, h, i, chain.length - 1, listed, isChain.entryPresent, isChain.isEntry, id, member, first,
      second, by omega, y, also, same.trans id.symm, access, near⟩

/-- The reader of the table is called by an entry point that calls itself, and calls it back. -/
theorem inverse_agrees_loop :
    let shards := [⟨"a.py", [Reach.looping]⟩, ⟨"b.py", [Reach.loopedBack]⟩]
    ((shards.flatMap (·.functions)).map (·.id)).Nodup ∧
      AgreesWithForward (.ofLinked shards) .standard "users" (some "email") := by
  have once : ([Reach.looping, Reach.loopedBack].map (·.id)).Nodup := by decide
  exact ⟨once, inverse_agrees _ _ _ _ once⟩

end InverseReach

end DataReach
