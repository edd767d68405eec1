import DataReach.Proofs.Store.Keyed
/-!
How many shards are in memory while all of them are visited. A batch brings its own shards into the
cache and nothing else, whether it reads them or writes them anew, and all of them leave with it.
-/

namespace DataReach

/-- Nothing but the shards of these keys is kept, each once and under its own key. -/
structure Cache.Within (c : Cache) (keys : List String) : Prop where
  once : c.shards.keys.Nodup
  inside : ∀ k shard, c.shards.get? k = some shard → k ∈ keys ∧ shard.key = k

namespace Cache

variable {c : Cache} {keys : List String}

theorem within_size (within : c.Within keys) : c.size ≤ keys.length := by
  have subset : c.shards.keys ⊆ keys := by
    intro k member
    have kept : c.shards.get? k ≠ none := fun absent =>
      (Dict.get?_eq_none_iff _ _).mp absent member
    obtain ⟨shard, found⟩ := Option.ne_none_iff_exists'.mp kept
    exact (within.inside k shard found).1
  calc c.size = c.shards.keys.length := (List.length_map _).symm
    _ ≤ keys.length := (within.once.subperm subset).length_le

theorem within_nil : c.Within [] ↔ c.shards = [] := by
  constructor
  · intro within
    have none := within_size within
    exact List.length_eq_zero_iff.mp (Nat.le_zero.mp none)
  · intro empty
    constructor
    · rw [empty]
      exact .nil
    · intro k shard found
      rw [empty] at found
      cases found

theorem within_insert (within : c.Within keys) {shard : Shard} (member : shard.key ∈ keys) :
    (c.insert shard.key shard).Within keys := by
  rw [insert]
  split
  · exact within
  · refine ⟨Dict.nodup_keys_alter _ _ _ within.once, fun k found there => ?_⟩
    rw [Dict.get?_insert] at there
    split at there
    · next same =>
      cases there
      exact ⟨same ▸ member, same.symm⟩
    · exact within.inside k found there

theorem within_evict {key : String} (within : c.Within (key :: keys)) :
    (c.evict key).Within keys := by
  have fewer : (c.evict key).shards.keys.Sublist c.shards.keys := List.filter_sublist.map _
  refine ⟨within.once.sublist fewer, fun k shard found => ?_⟩
  rw [evict, Dict.get?_erase] at found
  split at found
  · cases found
  · next other =>
    obtain ⟨member, own⟩ := within.inside k shard found
    exact ⟨(List.mem_cons.mp member).resolve_left other, own⟩

end Cache

theorem length_chunk {α : Type} {n : Nat} {xs part : List α} (member : part ∈ chunks n xs) :
    part.length ≤ max n 1 := by
  induction xs using chunks.induct n with
  | case1 =>
    rw [chunks] at member
    cases member
  | case2 x rest ih =>
    rw [chunks] at member
    rcases List.mem_cons.mp member with rfl | later
    · rw [List.length_cons, List.length_take]
      omega
    · exact ih later

theorem mem_of_chunk {α : Type} {n : Nat} {xs part : List α} (member : part ∈ chunks n xs) :
    ∀ x ∈ part, x ∈ xs := by
  intro x inside
  rw [← Store.flatten_chunks n xs]
  exact List.mem_flatten_of_mem member inside

namespace Store

variable {α β : Type} {s t : Store} {n : Nat} {ks keys : List String}

/-- A store with its keys and batches of a size, and the keys of the shards in its cache. -/
structure Tended (n : Nat) (ks keys : List String) (s : Store) : Prop where
  keyed : s.Keyed ks
  within : s.cache.Within keys
  size : s.batchSize = n

theorem tended_cache (tended : s.Tended n ks keys) {cache : Cache} (within : cache.Within keys) :
    ({ s with cache } : Store).Tended n ks keys :=
  ⟨keyed_cache tended.keyed cache, within, tended.size⟩

theorem tended_load (tended : s.Tended n ks keys) {key : String} (listed : key ∈ ks)
    (member : key ∈ keys) {found : Option Shard} (loaded : load key s = (found, t)) :
    t.Tended n ks keys ∧ ∀ shard, found = some shard → shard.key = key := by
  rw [load, Cache.find] at loaded
  have within : ∀ hits misses, ({ s.cache with hits, misses } : Cache).Within keys := fun _ _ =>
    ⟨tended.within.once, tended.within.inside⟩
  cases cached : s.cache.shards.get? key with
  | some kept =>
    rw [cached] at loaded
    cases loaded
    refine ⟨tended_cache tended (within ..), fun shard same => ?_⟩
    cases same
    exact (tended.within.inside key kept cached).2
  | none =>
    cases read : s.readShard key with
    | none =>
      simp only [cached, read] at loaded
      cases loaded
      refine ⟨tended_cache tended (within ..), fun shard same => ?_⟩
      cases same
    | some shard =>
      simp only [cached, read] at loaded
      cases loaded
      have own := tended.keyed.own key listed shard read
      have fits : shard.key ∈ keys := own ▸ member
      have more := Cache.within_insert (within s.cache.hits (s.cache.misses + 1)) fits
      rw [own] at more
      refine ⟨tended_cache tended more, fun other same => ?_⟩
      cases same
      exact own

theorem tended_save (tended : s.Tended n ks keys) {shard : Shard} (listed : shard.key ∈ ks)
    (member : shard.key ∈ keys) {outcome : Except StorageError String}
    (yields : (Action.save shard).Yields s outcome t) : t.Tended n ks keys := by
  cases outcome with
  | error e =>
    obtain ⟨files, disk, rfl⟩ := spoiled_files yields
    exact ⟨keyed_of_files tended.keyed files, tended.within, tended.size⟩
  | ok key =>
    obtain ⟨keyed, -, -, disk, rfl⟩ := save_listed tended.keyed listed yields
    exact ⟨keyed, Cache.within_insert tended.within member, tended.size⟩

theorem writeDocument_disk (s : Store) (path : String) (j : Json) :
    ∃ disk, (s.writeDocument path j).2 = { s with disk } := by
  rw [writeDocument]
  cases s.disk.write (path ++ ".tmp") (.document j.reread) with
  | error e => exact ⟨s.disk, rfl⟩
  | ok disk =>
    cases moved : disk.rename (path ++ ".tmp") path with
    | error e =>
      simp only [moved]
      exact ⟨disk, rfl⟩
    | ok last =>
      simp only [moved]
      exact ⟨last, rfl⟩

theorem tended_disk (tended : s.Tended n ks keys) (unwritten : Unwritten s t)
    (same : ∃ disk, t = { s with disk }) : t.Tended n ks keys := by
  obtain ⟨disk, rfl⟩ := same
  exact ⟨keyed_of_files tended.keyed unwritten.files, tended.within, tended.size⟩

theorem tended_putIndex (tended : s.Tended n ks keys) (shards : List Shard)
    (entries : List EntryPoint) : (putIndex shards entries s).2.Tended n ks keys := by
  apply tended_disk tended (inspects_putIndex shards entries s)
  obtain ⟨disk, same⟩ := s.writeDocument_disk (indexPath s.root)
    (GraphIndex.ofShards formatVersion s.now s.topN shards entries).toJson
  refine ⟨disk, ?_⟩
  rw [← same, putIndex]
  split <;> simp only [*]

theorem tended_putEntryPoints (tended : s.Tended n ks keys) (entries : List EntryPoint) :
    (putEntryPoints entries s).2.Tended n ks keys := by
  apply tended_disk tended (inspects_putEntryPoints entries s)
  obtain ⟨disk, same⟩ := s.writeDocument_disk (entryPointsPath s.root)
    (EntryPointList.toJson ⟨formatVersion, s.now, entries⟩)
  refine ⟨disk, ?_⟩
  rw [← same, putEntryPoints]
  split <;> simp only [*]

/-! ### Runs -/

namespace Script

variable {bound : Nat}

/-- Runs from one kind of tended state to another in which no more than so many shards are kept. -/
abbrev Tends (bound n : Nat) (ks before after : List String) (x : Script α) : Prop :=
  x.Assures (·.cache.size ≤ bound) (Tended n ks before) fun _ => Tended n ks after

theorem tends_pure (a : α) : Tends bound n ks keys keys (pure a) :=
  assures_pure fun _ tended => tended

theorem assures_tended {x : Action α} {P : Store → Prop} {Q : α → Store → Prop}
    (few : keys.length ≤ bound) (tended : ∀ a t, Q a t → Tended n ks keys t)
    (kept : ∀ s a t, P s → x.Yields s a t → Q a t) :
    (perform x).Assures (·.cache.size ≤ bound) P Q := by
  apply assures_perform
  intro s a t before yields
  have after := kept s a t before yields
  have size := Cache.within_size (tended a t after).within
  exact ⟨size.trans few, after⟩

theorem tends_perform {x : Action α} {before : List String} (few : keys.length ≤ bound)
    (kept : ∀ s a t, Tended n ks before s → x.Yields s a t → Tended n ks keys t) :
    Tends bound n ks before keys (perform x) :=
  assures_tended few (fun _ _ tended => tended) kept

theorem tends_state {f : Store → Script β} (few : keys.length ≤ bound)
    (rest : ∀ s, Tended n ks keys s → Tends bound n ks keys [] (f s)) :
    Tends bound n ks keys [] (perform .state >>= f) := by
  have first : (perform .state).Assures (·.cache.size ≤ bound) (Tended n ks keys)
      fun s t => Tended n ks keys s ∧ Tended n ks keys t := by
    apply assures_tended few fun _ _ both => both.2
    intro s a t tended yields
    cases yields
    exact ⟨tended, tended⟩
  apply assures_bind first
  intro s t moments b u both ran
  exact rest s both.1 t moments b u both.2 ran

theorem tends_loadEach {some : List String} (few : keys.length ≤ bound)
    (listed : ∀ k ∈ some, k ∈ ks) (members : ∀ k ∈ some, k ∈ keys) :
    Tends bound n ks keys keys (loadEach some) := by
  induction some with
  | nil => exact tends_pure _
  | cons key rest ih =>
    have first : Tends bound n ks keys keys (perform (.load key)) := by
      apply tends_perform few
      intro s found t tended loaded
      exact (tended_load tended (listed key (List.mem_cons_self ..))
        (members key (List.mem_cons_self ..)) loaded).1
    have others := ih (fun k later => listed k (List.mem_cons_of_mem key later))
      fun k later => members k (List.mem_cons_of_mem key later)
    exact assures_bind first fun _ => assures_bind others fun _ => tends_pure _

theorem tends_evictEach (few : keys.length ≤ bound) :
    Tends bound n ks keys [] (evictEach keys) := by
  induction keys with
  | nil => exact tends_pure _
  | cons key rest ih =>
    rw [List.length_cons] at few
    have first : Tends bound n ks (key :: rest) rest (perform (.evict key)) := by
      apply tends_perform (by omega)
      intro s _ t tended yields
      cases yields
      exact ⟨keyed_cache tended.keyed _, Cache.within_evict tended.within, tended.size⟩
    exact assures_bind first fun _ => ih (by omega)

theorem tends_widen {x : Script α} (keys : List String) (ran : Tends bound n ks keys [] x) :
    Tends bound n ks [] [] x := by
  intro s moments a t tended runs
  apply ran s moments a t _ runs
  refine ⟨tended.keyed, ⟨tended.within.once, fun k shard found => ?_⟩, tended.size⟩
  exact absurd (tended.within.inside k shard found).1 List.not_mem_nil

theorem tends_sweepBatches {parts : List (List String)}
    (few : ∀ part ∈ parts, part.length ≤ bound) (listed : ∀ part ∈ parts, ∀ k ∈ part, k ∈ ks) :
    Tends bound n ks [] [] (sweepBatches parts) := by
  induction parts with
  | nil => exact tends_pure _
  | cons part rest ih =>
    have own := few part (List.mem_cons_self ..)
    have others := ih (fun p later => few p (List.mem_cons_of_mem part later))
      fun p later => listed p (List.mem_cons_of_mem part later)
    apply tends_widen part
    apply assures_bind
      (tends_loadEach own (listed part (List.mem_cons_self ..)) fun _ member => member)
    intro found
    apply assures_bind (tends_evictEach own)
    intro _
    exact assures_bind others fun _ => tends_pure _

theorem tends_sweep (few : max n 1 ≤ bound) : Tends bound n ks [] [] sweep := by
  apply tends_state (Nat.zero_le bound)
  intro s tended
  rw [tended.keyed.listed, tended.size]
  apply assures_bind
  · exact tends_sweepBatches (fun _ member => (length_chunk member).trans few)
      fun _ member => mem_of_chunk member
  · intro shards
    exact tends_pure _

theorem tends_buildDerived (few : max n 1 ≤ bound) : Tends bound n ks [] [] buildDerived := by
  apply assures_bind (tends_sweep few)
  intro swept
  cases swept with
  | error e => exact tends_pure _
  | ok shards =>
    have index : Tends bound n ks [] []
        (perform (.putIndex shards (EntryPoint.ofShards shards))) := by
      apply tends_perform (Nat.zero_le bound)
      intro s made t tended yields
      change putIndex shards (EntryPoint.ofShards shards) s = (made, t) at yields
      have after := tended_putIndex tended shards (EntryPoint.ofShards shards)
      rwa [yields] at after
    apply assures_bind index
    intro made
    cases made with
    | error e => exact tends_pure _
    | ok index =>
      have list : Tends bound n ks [] []
          (perform (.putEntryPoints (EntryPoint.ofShards shards))) := by
        apply tends_perform (Nat.zero_le bound)
        intro s made t tended yields
        change putEntryPoints (EntryPoint.ofShards shards) s = (made, t) at yields
        have after := tended_putEntryPoints tended (EntryPoint.ofShards shards)
        rwa [yields] at after
      apply assures_bind list
      intro made
      cases made <;> exact tends_pure _

/-- A shard that is written anew is in the cache already, or would be if it had been kept. -/
theorem tends_step {p : Pass α} (rekeys : p.Rekeys) {key : String} (few : keys.length ≤ bound)
    (listed : key ∈ ks) (member : key ∈ keys) (r : Outcome α) :
    Tends bound n ks keys keys (step p key r) := by
  have first : (perform (.load key)).Assures (·.cache.size ≤ bound) (Tended n ks keys)
      fun found t => Tended n ks keys t ∧ ∀ shard, found = some shard → shard.key = key := by
    apply assures_tended few fun _ _ both => both.1
    intro s found t tended loaded
    exact tended_load tended listed member loaded
  apply assures_bind first
  intro found
  cases found with
  | none => exact assures_pure fun _ both => both.1
  | some shard =>
    simp only
    cases changed : p.change shard with
    | none => exact assures_pure fun _ both => both.1
    | some new =>
      have second : (perform (.save new)).Assures (·.cache.size ≤ bound)
          (fun t => Tended n ks keys t ∧ ∀ found, some shard = some found → found.key = key)
          fun _ => Tended n ks keys := by
        apply assures_tended few fun _ _ tended => tended
        intro s outcome t both yields
        have own : new.key = key := (rekeys shard new changed).trans (both.2 shard rfl)
        exact tended_save both.1 (own ▸ listed) (own ▸ member) yields
      apply assures_bind second
      intro outcome
      cases outcome <;> exact tends_pure _

theorem tends_steps {p : Pass α} (rekeys : p.Rekeys) {some : List String}
    (few : keys.length ≤ bound) (listed : ∀ k ∈ some, k ∈ ks) (members : ∀ k ∈ some, k ∈ keys)
    (r : Outcome α) : Tends bound n ks keys keys (steps p some r) := by
  induction some generalizing r with
  | nil => exact tends_pure _
  | cons key rest ih =>
    apply assures_bind (tends_step rekeys few (listed key (List.mem_cons_self ..))
      (members key (List.mem_cons_self ..)) r)
    intro r'
    exact ih (fun k later => listed k (List.mem_cons_of_mem key later))
      (fun k later => members k (List.mem_cons_of_mem key later)) r'

theorem tends_batches {p : Pass α} (rekeys : p.Rekeys) {parts : List (List String)}
    (few : ∀ part ∈ parts, part.length ≤ bound) (listed : ∀ part ∈ parts, ∀ k ∈ part, k ∈ ks)
    (count : Nat) (patience : Patience) (r : Outcome α) :
    Tends bound n ks [] [] (batches p count patience parts r) := by
  induction parts generalizing count patience r with
  | nil => exact tends_pure _
  | cons part rest ih =>
    have own := few part (List.mem_cons_self ..)
    have once : Tends bound n ks [] [] (batch p part r) := by
      apply tends_widen part
      apply assures_bind
        (tends_steps rekeys own (listed part (List.mem_cons_self ..)) (fun _ member => member) r)
      intro r'
      exact assures_bind (tends_evictEach own) fun _ => tends_pure _
    apply assures_bind once
    intro r'
    cases patience.ask? with
    | none => exact tends_pure _
    | some left =>
      exact ih (fun p later => few p (List.mem_cons_of_mem part later))
        (fun p later => listed p (List.mem_cons_of_mem part later)) _ _ _

theorem tends_pass {p : Pass α} (rekeys : p.Rekeys) {batchSize : Nat} (few : max batchSize 1 ≤ bound)
    (patience : Patience) (start : α) :
    Tends bound n ks [] [] (pass p batchSize patience start) := by
  apply tends_state (Nat.zero_le bound)
  intro s tended
  rw [tended.keyed.listed]
  exact tends_batches rekeys (fun _ member => (length_chunk member).trans few)
    (fun _ member => mem_of_chunk member) _ _ _

theorem tends_resolve {batchSize : Nat} (few : max n 1 ≤ bound) (few' : max batchSize 1 ≤ bound)
    (patience : Patience) : Tends bound n ks [] [] (resolve batchSize patience) := by
  have edges : Tends bound n ks [] [] (resolveEdges batchSize patience) := by
    apply assures_bind (tends_sweep few)
    intro swept
    cases swept with
    | error e => exact tends_pure _
    | ok shards => exact tends_pass (Pass.rekeys_resolving _) few' _ _
  apply assures_bind edges
  intro outcome
  cases outcome with
  | error e => exact tends_pure _
  | ok found =>
    obtain ⟨r, left⟩ := found
    have callers : Tends bound n ks [] [] (materializeCallers batchSize left) := by
      apply assures_bind (tends_sweep few)
      intro swept
      cases swept with
      | error e => exact tends_pure _
      | ok shards => exact tends_pass (Pass.rekeys_givingCallers _) few' _ _
    apply assures_bind callers
    intro outcome
    cases outcome <;> exact tends_pure _

section Unlisted

variable {e : StorageError}

abbrev Halts (bound : Nat) (e : StorageError) (x : Script α) (Q : α → Prop) : Prop :=
  x.Assures (·.cache.size ≤ bound) (fun s => s.keys = .error e ∧ s.cache.shards = [])
    fun a t => Q a ∧ t.cache.shards = []

theorem halts_sweep : Halts bound e sweep (· = .error e) := by
  intro s moments a t start ran
  obtain ⟨front, b, u, back, rfl, first, rest⟩ := runs_bind.mp ran
  obtain ⟨yields, rfl⟩ := runs_perform.mp first
  cases yields
  rw [start.1] at rest
  obtain ⟨rfl, rfl, rfl⟩ := runs_pure.mp rest
  refine ⟨fun m member => ?_, rfl, start.2⟩
  obtain rfl := List.mem_singleton.mp member
  rw [Cache.size, start.2]
  exact Nat.zero_le bound

theorem halts_bind {ε : Type} {cause : ε} {b : β} {x : Script (Except ε α)}
    {f : Except ε α → Script β} (first : Halts bound e x (· = .error cause))
    (rest : f (.error cause) = pure b) : Halts bound e (x >>= f) (· = b) := by
  apply assures_bind first
  intro a s moments b' t both ran
  obtain ⟨rfl, empty⟩ := both
  rw [rest] at ran
  obtain ⟨rfl, rfl, rfl⟩ := runs_pure.mp ran
  exact ⟨nofun, rfl, empty⟩

theorem halts_buildDerived : Halts bound e buildDerived (· = .error e) :=
  halts_bind halts_sweep rfl

theorem halts_resolve (batchSize : Nat) (patience : Patience) :
    Halts bound e (resolve batchSize patience) (· = .error (.storage e)) := by
  have edges : Halts bound e (resolveEdges batchSize patience) (· = .error (.storage e)) :=
    halts_bind halts_sweep rfl
  exact halts_bind edges rfl

end Unlisted

/-- The script does this work. In all its runs no more than so many shards are ever in memory, and
none is left there. -/
structure Bounds (x : Script α) (work : StateM Store α) (bound : Nat) (s : Store) : Prop where
  own : x.Runs s (x.trace s) (work s).1 (work s).2
  few : ∀ moments a t, x.Runs s moments a t → ∀ m ∈ moments, m.after.cache.size ≤ bound
  empty : ∀ moments a t, x.Runs s moments a t → t.cache.shards = []

theorem bounds_of {x : Script α} {Q : StorageError → α → Prop}
    (keyed : ∀ ks, s.keys = .ok ks → s.Keyed ks)
    (empty : s.cache.shards = []) (tends : ∀ ks, Tends bound s.batchSize ks [] [] x)
    (halts : ∀ e, Halts bound e x (Q e)) : x.Bounds x.run bound s := by
  have all : ∀ moments a t, x.Runs s moments a t →
      (∀ m ∈ moments, m.after.cache.size ≤ bound) ∧ t.cache.shards = [] := by
    intro moments a t ran
    cases listed : s.keys with
    | error e =>
      obtain ⟨few, -, last⟩ := halts e s moments a t ⟨listed, empty⟩ ran
      exact ⟨few, last⟩
    | ok ks =>
      have tended : Tended s.batchSize ks [] s := ⟨keyed ks listed, Cache.within_nil.mpr empty, rfl⟩
      obtain ⟨few, last⟩ := tends ks s moments a t tended ran
      exact ⟨few, Cache.within_nil.mp last.within⟩
  exact ⟨x.runs_trace s, fun moments a t ran => (all moments a t ran).1,
    fun moments a t ran => (all moments a t ran).2⟩

end Script

/-- A visit of all shards, making the derived documents and resolving keep no more shards in memory
than a batch has, whichever shards cannot be written and wherever resolving is cancelled, and in the
end the cache is as empty as it was. -/
theorem residents_bounded (keyed : ∀ ks, s.keys = .ok ks → s.Keyed ks)
    (empty : s.cache.shards = []) :
    Script.sweep.Bounds sweep (max s.batchSize 1) s ∧
      Script.buildDerived.Bounds buildDerived (max s.batchSize 1) s ∧
      ∀ batchSize patience, (Script.resolve batchSize patience).Bounds (resolve batchSize patience)
        (max (max s.batchSize 1) (max batchSize 1)) s := by
  refine ⟨?_, ?_, fun batchSize patience => ?_⟩
  · rw [← Script.run_sweep]
    exact Script.bounds_of keyed empty (fun _ => Script.tends_sweep (Nat.le_refl _)) fun _ =>
      Script.halts_sweep
  · rw [← Script.run_buildDerived]
    exact Script.bounds_of keyed empty (fun _ => Script.tends_buildDerived (Nat.le_refl _)) fun _ =>
      Script.halts_buildDerived
  · rw [← Script.run_resolve]
    exact Script.bounds_of keyed empty
      (fun _ => Script.tends_resolve (Nat.le_max_left ..) (Nat.le_max_right ..) patience)
      fun _ => Script.halts_resolve batchSize patience

/-- Of three shards two make a batch. Both are in memory when the second one is written anew, and they
have gone when the next batch comes. -/
theorem residents_bounded_cold :
    coldStore.batchSize = 1 ∧ coldStore.cache.shards = [] ∧
      (∃ ks, coldStore.Keyed ks ∧ ks.length = 3) ∧
      (∃ m ∈ (Script.resolve 2 none).trace coldStore, m.write.isSome ∧ m.after.cache.size = 2) ∧
      (Script.resolve 2 none).Bounds (resolve 2 none) 2 coldStore := by
  obtain ⟨ks, keyed⟩ := reached_keyed coldStore_reached
  have listed : ∀ others, coldStore.keys = .ok others → coldStore.Keyed others := by
    intro others same
    rw [keyed.listed] at same
    cases same
    exact keyed
  have three : coldStore.keys.toOption.any (fun ks => decide (ks.length = 3)) = true := by
    decide +kernel
  rw [keyed.listed] at three
  have kept : ((Script.resolve 2 none).trace coldStore).any
      (fun m => decide (m.write.isSome ∧ m.after.cache.size = 2)) = true := by
    decide +kernel
  obtain ⟨m, member, residents⟩ := List.any_eq_true.mp kept
  have size : coldStore.batchSize = 1 := by decide +kernel
  have empty : coldStore.cache.shards = [] := by
    apply List.length_eq_zero_iff.mp
    decide +kernel
  have bounds := (residents_bounded listed empty).2.2 2 none
  rw [size] at bounds
  exact ⟨size, empty, ⟨ks, keyed, of_decide_eq_true three⟩,
    ⟨m, member, of_decide_eq_true residents⟩, bounds⟩

end Store

end DataReach
