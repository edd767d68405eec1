import DataReach.Proofs.Store.Hindered
import DataReach.Proofs.Store.Reports
/-!
Shards that cannot be saved. Wherever writing one fails, the store shows, lists and reports what it
did before. A pass notes the failure and goes on, and leaves all other shards as if there had been
none.
-/

namespace DataReach.Store

variable {α β : Type} {s t : Store} {ks : List String}

/-! ### Disks that are not told apart -/

/-- A store at another time, with another disk that lists and reads documents alike. -/
structure Twins (s t : Store) : Prop where
  files : SameFiles s t
  disk : ∃ disk now, t = { s with disk, now }

def Blind (x : StateM Store α) : Prop :=
  ∀ s t, Twins s t → (x t).1 = (x s).1 ∧ Twins (x s).2 (x t).2

theorem twins_cache (twins : Twins s t) (cache : Cache) :
    Twins { s with cache } { t with cache } := by
  obtain ⟨files, disk, now, rfl⟩ := twins
  exact ⟨⟨files.keys, files.read⟩, disk, now, rfl⟩

theorem blind_pure (a : α) : Blind (pure a) := fun _ _ twins => ⟨rfl, twins⟩

theorem blind_bind {x : StateM Store α} {f : α → StateM Store β} (first : Blind x)
    (rest : ∀ a, Blind (f a)) : Blind (x >>= f) := by
  intro s t twins
  obtain ⟨same, after⟩ := first s t twins
  rw [run_bind, run_bind, same]
  exact rest _ _ _ after

theorem blind_load {key : String} (plain : '/' ∉ key.toList) : Blind (load key) := by
  intro s t twins
  have read := twins.files.read key plain
  have cache : t.cache = s.cache := by
    obtain ⟨-, disk, now, rfl⟩ := twins
    rfl
  rw [load, load, cache, read]
  rcases s.cache.find key with ⟨_ | shard, cache⟩
  · cases s.readShard key with
    | none => exact ⟨rfl, twins_cache twins _⟩
    | some shard => exact ⟨rfl, twins_cache twins _⟩
  · exact ⟨rfl, twins_cache twins _⟩

theorem blind_evict (key : String) : Blind (evict key) := by
  intro s t twins
  have evicted := twins_cache twins (s.cache.evict key)
  obtain ⟨-, disk, now, rfl⟩ := twins
  exact ⟨rfl, evicted⟩

theorem blind_evictAll : Blind evictAll := by
  intro s t twins
  have evicted := twins_cache twins s.cache.evictAll
  obtain ⟨-, disk, now, rfl⟩ := twins
  exact ⟨rfl, evicted⟩

theorem blind_evictEach (keys : List String) : Blind (evictEach keys) := by
  induction keys with
  | nil => exact blind_pure ()
  | cons key rest ih => exact blind_bind (blind_evict key) fun _ => ih

theorem blind_loadEach {keys : List String} (plain : ∀ k ∈ keys, '/' ∉ k.toList) :
    Blind (loadEach keys) := by
  induction keys with
  | nil => exact blind_pure []
  | cons key rest ih =>
    have others := ih fun k later => plain k (List.mem_cons_of_mem key later)
    apply blind_bind (blind_load (plain key (List.mem_cons_self ..)))
    intro _
    exact blind_bind others fun _ => blind_pure _

theorem blind_sweepBatches {parts : List (List String)}
    (plain : ∀ k ∈ parts.flatten, '/' ∉ k.toList) : Blind (sweepBatches parts) := by
  induction parts with
  | nil => exact blind_pure []
  | cons part rest ih =>
    rw [List.flatten_cons] at plain
    have others := ih fun k later => plain k (List.mem_append_right part later)
    apply blind_bind (blind_loadEach fun k member => plain k (List.mem_append_left _ member))
    intro _
    apply blind_bind (blind_evictEach part)
    intro _
    exact blind_bind others fun _ => blind_pure _

theorem blind_sweep : Blind sweep := by
  intro s t twins
  have size : t.batchSize = s.batchSize := by
    obtain ⟨-, disk, now, rfl⟩ := twins
    rfl
  rw [sweep, run_bind, run_bind, run_get, run_get]
  simp only [twins.files.keys, size]
  cases listed : s.keys with
  | error e => exact ⟨rfl, twins⟩
  | ok ks =>
    have plain : ∀ k ∈ (chunks s.batchSize ks).flatten, '/' ∉ k.toList := by
      rw [flatten_chunks]
      exact plain_of_listed listed
    exact blind_bind (blind_sweepBatches plain) (fun _ => blind_pure _) s t twins

theorem blind_stats : Blind stats := blind_bind blind_sweep fun _ => blind_pure _

/-! ### Writing the index -/

theorem writeDocument_any (base : String) {x : FileName} (proper : x.Proper) (s : Store)
    (j j' : Json) :
    (s.writeDocument (Path.join base x.text) j').1 =
      (s.writeDocument (Path.join base x.text) j).1 := by
  by_cases below : ∃ q, s.disk.Descends [] (Path.steps base) q
  · obtain ⟨q, below⟩ := below
    exact writeDocument_congr proper below below Iff.rfl Iff.rfl j j'
  · have draft : Path.join base x.text ++ ".tmp" = Path.join base (draftName x).text :=
      Path.join_append base rfl
    rw [writeDocument, writeDocument, draft, Disk.write, Disk.write]
    cases placed : s.disk.locate (Path.join base (draftName x).text) with
    | error e => rfl
    | ok p =>
      obtain ⟨-, q, inside, -⟩ := (Disk.locate_join (proper_draftName x)).mp placed
      exact absurd ⟨q, inside⟩ below

theorem writeDocument_same (disk : t.disk = s.disk) (path : String) (j : Json) :
    (t.writeDocument path j).1 = (s.writeDocument path j).1 := by
  rw [writeDocument, writeDocument, disk]
  cases s.disk.write (path ++ ".tmp") (.document j.reread) with
  | error e => rfl
  | ok drafted =>
    simp only
    cases drafted.rename (path ++ ".tmp") path <;> rfl

theorem putIndex_eq (shards : List Shard) (entries : List EntryPoint) (s : Store) :
    (putIndex shards entries s).1 = (s.writeDocument (indexPath s.root)
      (GraphIndex.ofShards formatVersion s.now s.topN shards entries).toJson).1.map
        fun _ => .ofShards formatVersion s.now s.topN shards entries := by
  rw [putIndex]
  rcases s.writeDocument (indexPath s.root)
    (GraphIndex.ofShards formatVersion s.now s.topN shards entries).toJson with ⟨_ | _, u⟩ <;> rfl

theorem putIndex_congr (root : t.root = s.root) (topN : t.topN = s.topN)
    (alike : ∀ j j', (t.writeDocument (indexPath s.root) j').1 =
      (s.writeDocument (indexPath s.root) j).1) (shards : List Shard) (entries : List EntryPoint) :
    (putIndex shards entries t).1 =
      (putIndex shards entries s).1.map ({ · with generatedAt := t.now }) := by
  rw [putIndex_eq, putIndex_eq, root, topN, alike
    (GraphIndex.ofShards formatVersion s.now s.topN shards entries).toJson]
  cases (s.writeDocument (indexPath s.root)
    (GraphIndex.ofShards formatVersion s.now s.topN shards entries).toJson).1 <;> rfl

/-! ### After a failed save -/

/-- Nothing that a store gives tells two states of it apart. -/
structure Unnoticed (s t : Store) : Prop where
  load : ∀ key, '/' ∉ key.toList → ∀ lost, (load key (evictEach lost t).2).1 =
    (load key (evictEach lost s).2).1
  reload : ∀ key, '/' ∉ key.toList → (Store.load key (evictAll t).2).1 =
    (Store.load key (evictAll s).2).1
  keys : t.keys = s.keys
  stats : (stats t).1 = (stats s).1
  index : ∀ now later, (buildIndex { t with now := later }).1 =
    (buildIndex { s with now }).1.map ({ · with generatedAt := later })
  written : t.index? = s.index?

section Spoiled

variable {shard : Shard}

theorem spoiled_twins (spoiled : Spoiled shard s t) (now later : Nat) :
    Twins { s with now } { t with now := later } := by
  obtain ⟨files, disk, rfl⟩ := spoiled_files spoiled
  exact ⟨⟨files.keys, files.read⟩, disk, later, rfl⟩

theorem spoiled_writes (spoiled : Spoiled shard s t) {x : FileName} (proper : x.Proper)
    (j j' : Json) :
    (t.writeDocument (Path.join s.root x.text) j').1 =
      (s.writeDocument (Path.join s.root x.text) j).1 := by
  rcases spoiled_cases spoiled with rfl | ⟨q, children, y, c, opened, rfl, edited⟩
  · exact writeDocument_any t.root proper t j j'
  · exact writeDocument_congr proper opened.below
      ((Disk.descends_congr edited.directories).mpr opened.below) (edited.directories _)
      (edited.directories _) j j'

theorem spoiled_index (spoiled : Spoiled shard s t) (now later : Nat) :
    (buildIndex { t with now := later }).1 =
      (buildIndex { s with now }).1.map ({ · with generatedAt := later }) := by
  obtain ⟨swept, -⟩ := blind_sweep _ _ (spoiled_twins spoiled now later)
  have before := (recaches_sweep { s with now }).same
  have after := (recaches_sweep { t with now := later }).same
  rw [buildIndex, run_bind, run_bind, swept]
  cases (sweep { s with now }).1 with
  | error e => rfl
  | ok shards =>
    have own : t.root = s.root ∧ t.topN = s.topN := by
      obtain ⟨disk, rfl⟩ := (spoiled_files spoiled).2
      exact ⟨rfl, rfl⟩
    generalize (sweep { s with now }).2 = u at before ⊢
    generalize (sweep { t with now := later }).2 = v at after ⊢
    have place : u.root = s.root := by rw [before]
    have root : v.root = u.root := by rw [place, ← own.1, after]
    have topN : v.topN = u.topN := by rw [before, after, own.2]
    have disk : u.disk = s.disk := by rw [before]
    have disk' : v.disk = t.disk := by rw [after]
    have time : v.now = later := by rw [after]
    have alike : ∀ j j', (v.writeDocument (indexPath u.root) j').1 =
        (u.writeDocument (indexPath u.root) j).1 := by
      intro j j'
      rw [writeDocument_same disk, writeDocument_same disk', place]
      exact spoiled_writes spoiled proper_indexName j j'
    rw [← time]
    exact putIndex_congr root topN alike shards _

theorem spoiled_written (spoiled : Spoiled shard s t) : t.index? = s.index? := by
  have same : t.readDocument (indexPath t.root) = s.readDocument (indexPath s.root) := by
    rcases spoiled_cases spoiled with rfl | ⟨q, children, y, c, opened, rfl, edited⟩
    · rfl
    · apply readDocument_congr
      intro found
      simp only [indexPath_eq, Disk.read_join proper_indexName,
        Disk.descends_congr edited.directories]
      apply and_congr_right
      intro _
      apply exists_congr
      intro there
      apply and_congr_right
      intro below
      obtain rfl := Disk.descends_unique opened.below below
      rw [Disk.at?_put_beside opened.held (by decide)]
  rw [index?, index?, same]

theorem unnoticed_of_spoiled (spoiled : Spoiled shard s t) : Unnoticed s t where
  load key plain lost := by
    obtain ⟨-, lost⟩ := blind_evictEach lost s t (spoiled_twins spoiled s.now t.now)
    exact (blind_load plain _ _ lost).1
  reload key plain := by
    obtain ⟨-, emptied⟩ := blind_evictAll s t (spoiled_twins spoiled s.now t.now)
    exact (blind_load plain _ _ emptied).1
  keys := (spoiled_files spoiled).1.keys
  stats := (blind_stats s t (spoiled_twins spoiled s.now t.now)).1
  index := spoiled_index spoiled
  written := spoiled_written spoiled

end Spoiled

/-! ### Passes with failures -/

/-- A run of a pass in which some shards could not be written, beside one from the same state in which
all could. What more shards would have added to the counts is given. -/
structure Beside (more : Nat → α → α) (ks : List String) (s : Store) (l l' : List Moment)
    (out out' : Except GraphError (Outcome α × Patience)) (t t' : Store) : Prop where
  keyed : t.Keyed ks
  attempts : attempts l = attempts l'
  read : ∀ k, '/' ∉ k.toList →
    t.readShard k = if k ∈ failed l then s.readShard k else t'.readShard k
  shown : ∀ k ∈ ks, t.shown k = t.readShard k ∧ t'.shown k = t'.readShard k
  ends : (∃ e, out = .error e ∧ out' = .error e) ∨
    ∃ r r' left, out = .ok (r, left) ∧ out' = .ok (r', left) ∧ r.errors = recorded l ∧
      r'.errors = [] ∧ r'.data = more (failures l).length r.data

theorem ending_alike (patience : Patience) (todo : Nat) (r r' : Outcome α) :
    (∃ e, patience.ending 0 todo r = .error e ∧ patience.ending 0 todo r' = .error e) ∨
      ∃ left, patience.ending 0 todo r = .ok (r, left) ∧
        patience.ending 0 todo r' = .ok (r', left) := by
  unfold Patience.ending
  split
  · exact .inr ⟨none, rfl, rfl⟩
  · split
    · exact .inl ⟨_, rfl, rfl⟩
    · exact .inr ⟨_, rfl, rfl⟩

section Beside

variable {p : Pass α} {done : List String} {total : α} {l l' : List Moment} {r r' : Outcome α}
  {t' : Store} {out out' : Except GraphError (Outcome α × Patience)}

theorem shown_of_tells {m : String → Option Shard} (tells : Tells p m ks done [] total l r t)
    {k : String} (member : k ∈ ks) : t.shown k = t.readShard k := by
  rw [shown, tells.bare k member List.not_mem_nil, Option.none_or]

theorem beside_of_tells {more : Nat → α → α} (adds : ∀ n a, p.saved^[n] a = more n a)
    {patience : Patience} {todo : Nat}
    (run : ∃ r, out = patience.ending 0 todo r ∧ Tells p s.readShard ks done [] total l r t)
    (run' : ∃ r, out' = patience.ending 0 todo r ∧ Tells p s.readShard ks done [] total l' r t')
    (clean : failures l' = []) : Beside more ks s l l' out out' t t' := by
  obtain ⟨r, rfl, tells⟩ := run
  obtain ⟨r', rfl, tells'⟩ := run'
  refine ⟨tells.keyed, tells.attempts.trans tells'.attempts.symm, fun k plain => ?_,
    fun k member => ⟨shown_of_tells tells member, shown_of_tells tells' member⟩, ?_⟩
  · have none : failed l' = [] := by rw [failed, clean, List.map_nil]
    rw [tells.read k plain, tells'.read k plain, none]
    by_cases hindered : k ∈ failed l
    · simp [hindered]
    · simp [hindered]
  · have data := tells.data
    rw [← tells'.data, clean, adds] at data
    have errors : r'.errors = [] := by rw [tells'.errors, recorded, clean, List.map_nil]
    rcases ending_alike patience todo r r' with failed | ⟨left, ended, ended'⟩
    · exact .inl failed
    · exact .inr ⟨r, r', left, ended, ended', tells.errors, errors, data.symm⟩

theorem saved_resolving (index : NameIndex) (n : Nat) (d : Diagnostics) :
    (Pass.resolving index).saved^[n] d = { d with shardsChanged := d.shardsChanged + n } := by
  induction n with
  | zero => rfl
  | succ n ih => rw [Function.iterate_succ_apply', ih]; rfl

theorem saved_givingCallers (m : CallerMap) (n k : Nat) :
    (Pass.givingCallers m).saved^[n] k = k + n := by
  induction n with
  | zero => rfl
  | succ n ih => rw [Function.iterate_succ_apply', ih]; rfl

end Beside

section Resolve

variable {batchSize : Nat} {patience : Patience} {l : List Moment}

theorem tells_resolveEdges (keyed : s.Keyed ks)
    {out : Except GraphError (Outcome Diagnostics × Patience)}
    (ran : (Script.resolveEdges batchSize patience).Runs s l out t) :
    let p := Pass.resolving (.ofShards (ks.filterMap s.shown))
    let parts := patience.gone (chunks batchSize ks)
    ∃ r, out = patience.ending 0 (chunks batchSize ks).length r ∧
      Tells p s.readShard ks parts.flatten [] (p.counted s.readShard parts {}) l r t :=
  tells_swept (fun shards => Pass.rekeys_resolving (.ofShards shards))
    (fun shards => Pass.defers_resolving (.ofShards shards)) keyed ran

theorem tells_materializeCallers (keyed : s.Keyed ks)
    {out : Except GraphError (Outcome Nat × Patience)}
    (ran : (Script.materializeCallers batchSize patience).Runs s l out t) :
    let p := Pass.givingCallers (.ofShards (ks.filterMap s.shown))
    let parts := patience.gone (chunks batchSize ks)
    ∃ r, out = patience.ending 0 (chunks batchSize ks).length r ∧
      Tells p s.readShard ks parts.flatten [] (p.counted s.readShard parts 0) l r t :=
  tells_swept (fun shards => Pass.rekeys_givingCallers (.ofShards shards))
    (fun shards => Pass.defers_givingCallers (.ofShards shards)) keyed ran

theorem resolve_recorded (keyed : s.Keyed ks) {r : Outcome Diagnostics}
    (ran : (Script.resolve batchSize patience).Runs s l (.ok r) t) : r.errors = recorded l := by
  obtain ⟨front, edges, u, back, rfl, first, rest⟩ := Script.runs_bind.mp ran
  obtain ⟨r₁, rfl, tells⟩ := tells_resolveEdges keyed first
  rcases ending_alike patience (chunks batchSize ks).length r₁ r₁ with
    ⟨e, ended, -⟩ | ⟨left, ended, -⟩
  · rw [ended] at rest
    obtain ⟨-, bad, -⟩ := Script.runs_pure.mp rest
    cases bad
  · rw [ended] at rest
    obtain ⟨middle, callers, v, last, rfl, second, ends⟩ := Script.runs_bind.mp rest
    obtain ⟨r₂, rfl, tells'⟩ := tells_materializeCallers tells.keyed second
    rcases ending_alike left (chunks batchSize ks).length r₂ r₂ with
      ⟨e, ended', -⟩ | ⟨left', ended', -⟩
    · rw [ended'] at ends
      obtain ⟨-, bad, -⟩ := Script.runs_pure.mp ends
      cases bad
    · rw [ended'] at ends
      obtain ⟨rfl, done, -⟩ := Script.runs_pure.mp ends
      cases done
      rw [List.append_nil, recorded_append, ← tells.errors, ← tells'.errors]

end Resolve

/-- A save that fails is not noticed. While calls are resolved it is noted once, and no other shard
fares otherwise. -/
theorem failed_saves_harmless {P : Shard → Prop} :
    (∀ s shard e t, save shard s = (.error e, t) → Spoiled shard s t) ∧
    (∀ s shard t, Spoiled shard s t → Unnoticed s t) ∧
    (∀ s, Reached P s → ∃ ks, s.Keyed ks) ∧
    ∀ s ks, s.Keyed ks → ∀ batchSize patience,
      (∀ l out t l' out' t', (Script.resolveEdges batchSize patience).Runs s l out t →
        (Script.resolveEdges batchSize patience).Runs s l' out' t' → failures l' = [] →
        Beside (fun n d => { d with shardsChanged := d.shardsChanged + n }) ks s l l' out out'
          t t') ∧
      (∀ l out t l' out' t', (Script.materializeCallers batchSize patience).Runs s l out t →
        (Script.materializeCallers batchSize patience).Runs s l' out' t' → failures l' = [] →
        Beside (fun n k => k + n) ks s l l' out out' t t') ∧
      ∀ l r t, (Script.resolve batchSize patience).Runs s l (.ok r) t → r.errors = recorded l := by
  refine ⟨fun _ _ _ _ => spoiled_of_save, fun _ _ _ => unnoticed_of_spoiled,
    fun _ => reached_keyed, fun s ks keyed batchSize patience => ⟨?_, ?_, ?_⟩⟩
  · intro l out t l' out' t' ran ran' clean
    exact beside_of_tells (saved_resolving _) (tells_resolveEdges keyed ran)
      (tells_resolveEdges keyed ran') clean
  · intro l out t l' out' t' ran ran' clean
    exact beside_of_tells (saved_givingCallers _) (tells_materializeCallers keyed ran)
      (tells_materializeCallers keyed ran') clean
  · exact fun _ _ _ => resolve_recorded keyed

/-- A disk that is full: half a draft stays behind, and that shard keeps its old call while another is
written. -/
theorem failed_saves_harmless_cold :
    (∃ disk, Spoiled staleShard coldStore { coldStore with disk } ∧
        disk.isFile (shardPath coldStore.root staleShard.key ++ ".tmp") = true ∧
        Unnoticed coldStore { coldStore with disk }) ∧
      ∃ ks l out t, coldStore.Keyed ks ∧ (Script.resolveEdges 1 none).Runs coldStore l out t ∧
        (failures l).length = 1 ∧ (∃ m ∈ l, m.write = some (callerShard.key, none)) ∧
        Beside (fun n d => { d with shardsChanged := d.shardsChanged + n }) ks coldStore l
          ((Script.resolveEdges 1 none).trace coldStore) out (resolveEdges 1 none coldStore).1 t
          (resolveEdges 1 none coldStore).2 := by
  obtain ⟨-, unnoticed, listed, resolves⟩ := failed_saves_harmless (P := fun _ => True)
  constructor
  · have drafted : (match coldStore.disk.write (shardPath coldStore.root staleShard.key ++ ".tmp")
        (.text "\x7b") with
      | .ok disk => disk.isFile (shardPath coldStore.root staleShard.key ++ ".tmp")
      | .error _ => false) = true := by
      decide +kernel
    cases written : coldStore.disk.write (shardPath coldStore.root staleShard.key ++ ".tmp")
      (.text "\x7b") with
    | error e =>
      rw [written] at drafted
      cases drafted
    | ok disk =>
      rw [written] at drafted
      have spoiled : Spoiled staleShard coldStore { coldStore with disk } :=
        .inr ⟨_, disk, written, rfl⟩
      exact ⟨disk, spoiled, drafted, unnoticed _ _ _ spoiled⟩
  · obtain ⟨ks, keyed⟩ := listed coldStore coldStore_reached
    have ran := (Script.resolveEdges 1 none).runs_hindered
      (fun key => if key = staleShard.key then some (.io "/t" "no space") else none) coldStore
    have own := (Script.resolveEdges 1 none).runs_trace coldStore
    rw [Script.run_resolveEdges] at own
    generalize hindered : (Script.resolveEdges 1 none).hindered
      (fun key => if key = staleShard.key then some (.io "/t" "no space") else none) coldStore = run
      at ran
    have told : (failures run.1).length = 1 ∧
        (run.1.map (·.write)).contains (some (callerShard.key, none)) = true := by
      rw [← hindered]
      decide +kernel
    obtain ⟨m, member, written⟩ := List.mem_map.mp (List.contains_iff_mem.mp told.2)
    have clean : failures ((Script.resolveEdges 1 none).trace coldStore) = [] := by
      apply List.length_eq_zero_iff.mp
      decide +kernel
    exact ⟨ks, _, _, _, keyed, ran, told.1, ⟨m, member, written⟩,
      (resolves coldStore ks keyed 1 none).1 _ _ _ _ _ _ ran own clean⟩

end DataReach.Store
