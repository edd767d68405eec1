import DataReach.Proofs.Json.Numeral
import DataReach.Proofs.Settling
import DataReach.Proofs.Store.Rewriting
/-!
Runs of the resolver that are cancelled and begun again. Each leaves the store with shards on the way
to the settled ones, and where they are on that way does not matter to the next run.
-/

namespace DataReach

def Shard.Finite (s : Shard) : Prop :=
  ∀ f ∈ s.functions, ∀ e ∈ f.calls, e.confidence.isFinite = true

instance : DecidablePred Shard.Finite := fun s =>
  inferInstanceAs (Decidable (∀ f ∈ s.functions, ∀ e ∈ f.calls, e.confidence.isFinite = true))

theorem CallEdge.reread?_of_finite {e : CallEdge} (finite : e.confidence.isFinite = true) :
    ∃ read, e.reread? = some read := by
  rcases Json.Numeral.rereadFloat_finite finite with ⟨n, read⟩
  have number : (Json.float e.confidence).reread = .num n := by
    rw [Json.float, if_pos finite]
    exact read
  rw [reread?, number]
  cases n <;> exact ⟨_, rfl⟩

theorem Shard.reread?_of_finite {s : Shard} (finite : s.Finite) : ∃ read, s.reread? = some read := by
  have functions : ∃ functions, s.functions.mapM FunctionNode.reread? = some functions := by
    refine mapM_some fun f member => ?_
    rcases mapM_some fun e call => CallEdge.reread?_of_finite (finite f member e call) with
      ⟨calls, made⟩
    exact ⟨{ f with calls }, by rw [FunctionNode.reread?, made]; rfl⟩
  rcases functions with ⟨functions, made⟩
  exact ⟨{ s with functions }, by rw [Shard.reread?, made]; rfl⟩

namespace Store

open Settling

/-- Stores that were empty and then had shards saved, which may have left the cache since. -/
inductive Filled : Store → Prop
  | empty {s : Store} : s.keys = .ok [] → s.cache.shards = [] → Filled s
  | save {s s' : Store} {shard : Shard} {key : String} :
    Filled s → shard.Finite → save shard s = (.ok key, s') → Filled s'
  | evict {s : Store} (key : String) : Filled s → Filled (evict key s).2

/-- A run of the resolver and how long it has patience. -/
structure Run where
  batchSize : Nat
  patience : Patience

namespace Run

def on (run : Run) : StateM Store (Except GraphError (Outcome Diagnostics)) :=
  resolve run.batchSize run.patience

/-- A run completes without errors, or is cancelled when its patience ends. -/
inductive Ends (run : Run) : Except GraphError (Outcome Diagnostics) → Prop
  | completed {r : Outcome Diagnostics} : r.errors = [] → Ends run (.ok r)
  | cancelled {count : Nat} : run.patience ≠ none → Ends run (.error (.cancelled count))

theorem completes {run : Run} {s : Store} (ends : run.Ends (run.on s).1)
    (endless : run.patience = none) : ∃ r t, run.on s = (.ok r, t) := by
  rcases ran : run.on s with ⟨outcome, t⟩
  rw [ran] at ends
  cases ends with
  | completed clean => exact ⟨_, t, rfl⟩
  | cancelled bounded => exact absurd endless bounded

end Run

def after (s : Store) : List Run → Store
  | [] => s
  | run :: rest => after (run.on s).2 rest

theorem after_cons {s s' : Store} {run : Run} {outcome : Except GraphError (Outcome Diagnostics)}
    (ran : run.on s = (outcome, s')) (rest : List Run) :
    s.after (run :: rest) = s'.after rest :=
  congrArg (fun result => after result.2 rest) ran

/-! ### One run -/

/-- A store that lists these keys and whose documents make up this map; what it keeps in its cache
may differ in how calls are resolved. -/
structure Ready (s : Store) (ks : List String) (m : String → Option Shard) : Prop where
  listed : s.keys = .ok ks
  shows : ∃ v, s.Shows m v ∧ ∀ k, (v k).map Shard.bare = (m k).map Shard.bare
  writable : s.Writable m

section Run

variable {s s' : Store} {ks : List String} {m m' : String → Option Shard}

theorem filled_ready (filled : s.Filled) : ∃ ks m, s.Ready ks m := by
  have shown : ∃ m v, s.Shows m v ∧ s.Writable m ∧
      ∀ k, (v k).map Shard.bare = (m k).map Shard.bare := by
    induction filled with
    | empty listed uncached =>
      refine ⟨fun _ => none, fun _ => none, ⟨⟨⟨[], listed, .nil, by simp⟩, nofun, nofun⟩,
        fun k => ?_, fun _ _ => rfl, fun _ => uncached⟩, fun _ _ some => absurd rfl some, fun _ => rfl⟩
      rw [uncached]
      rfl
    | @save s s' shard key before finite saved ih =>
      rcases ih with ⟨m, v, shows, writable, alike⟩
      rcases Shard.reread?_of_finite finite with ⟨read, reread⟩
      rcases save_shows shows reread saved with ⟨kept, which, shown⟩
      have same : kept.bare = read.bare := by
        rcases which with rfl | rfl
        · exact (Shard.bare_reread reread).symm
        · rfl
      refine ⟨_, _, shown, writable_saved writable read saved, fun k => ?_⟩
      by_cases own : k = shard.key
      · rw [own, Function.update_self, Function.update_self, Option.map_some, Option.map_some, same]
      · rw [Function.update_of_ne own, Function.update_of_ne own, alike]
    | evict key before ih =>
      rcases ih with ⟨m, v, shows, writable, alike⟩
      rcases evict_shows shows key with ⟨cache, evicted, shown⟩
      rw [evicted]
      refine ⟨m, _, shown, writable, fun k => ?_⟩
      by_cases own : k = key
      · rw [own, Function.update_self]
      · rw [Function.update_of_ne own, alike]
  rcases shown with ⟨m, v, shows, writable, alike⟩
  rcases shows.listed with ⟨ks, listed, -⟩
  exact ⟨ks, m, listed, ⟨v, shows, alike⟩, writable⟩

theorem ready_of_lasts (lasts : s.Lasts m) (listed : s.keys = .ok ks) : s.Ready ks m :=
  ⟨listed, ⟨m, lasts.holds, fun _ => rfl⟩, lasts.writable⟩

theorem shardsChanged_diagnose (shard : Shard) (index : NameIndex) (d : Diagnostics) :
    (shard.diagnose index d).shardsChanged = d.shardsChanged := by
  rw [Shard.diagnose]
  generalize shard.functions.flatMap (·.calls) = edges
  induction edges generalizing d with
  | nil => rfl
  | cons e rest ih =>
    rw [List.foldl_cons, ih]
    cases (e.outcome shard.file index).map (·.2) <;> rfl

theorem tallies_resolving (ks : List String) (m : String → Option Shard) :
    (Pass.resolving (names ks m)).Tallies m fun d => Resting ks m → d.shardsChanged = 0 where
  visit := by
    intro d shard counted resting
    exact (shardsChanged_diagnose shard (names ks m) d).trans (counted resting)
  saved := by
    intro d key shard new stored changed counted resting
    simp [Pass.resolving, resting key shard stored] at changed
  batchDone := fun _ counted => counted

theorem between_resolving (visited : List String) :
    Between ks m ((Pass.resolving (names ks m)).applied m visited) := by
  intro k
  rw [Pass.applied, Pass.resolving_apply]
  split
  · exact .inr (.inl rfl)
  · exact .inl rfl

theorem between_givingCallers (visited : List String) :
    Between ks m ((Pass.givingCallers (.ofShards (ks.filterMap (resolved ks m)))).applied
      (resolved ks m) visited) := by
  intro k
  rw [Pass.applied, Pass.givingCallers_apply]
  split
  · exact .inr (.inr rfl)
  · exact .inr (.inl rfl)

theorem resolveEdges_ready (ready : s.Ready ks m) (batchSize : Nat) (patience : Patience) :
    (∃ r left s', resolveEdges batchSize patience s = (.ok (r, left), s') ∧
        (patience = none → left = none) ∧ r.errors = [] ∧
        (Resting ks m → r.data.shardsChanged = 0) ∧ s'.Lasts (resolved ks m)) ∨
      ∃ count m' s', resolveEdges batchSize patience s = (.error (.cancelled count), s') ∧
        patience ≠ none ∧ Between ks m m' ∧ s'.Lasts m' := by
  rcases ready.shows with ⟨v, shows, alike⟩
  rcases sweep_shows shows ready.listed with ⟨cache, swept, holds⟩
  have index : NameIndex.ofShards (ks.filterMap v) = names ks m := names_congr alike
  have phase : resolveEdges batchSize patience s =
      (Pass.resolving (names ks m)).run batchSize patience {} { s with cache } := by
    rw [resolveEdges, run_bind, nameIndex, run_bind, swept, ← index]
    rfl
  rw [phase]
  have keeps : (Pass.resolving (names ks m)).Keeps m := fun _ shard _ =>
    Pass.resolving_keeps (names ks m) shard
  have none : Resting ks m → ({} : Diagnostics).shardsChanged = 0 := fun _ => rfl
  rcases Pass.run_lasts keeps (tallies_resolving ks m) ⟨holds, ready.writable⟩ none with
    ⟨r, left, s', ran, endless, clean, counted, lasts⟩ | ⟨count, visited, s', ran, bounded, lasts⟩
  · rw [Pass.resolving_apply] at lasts
    exact .inl ⟨r, left, s', ran, endless, clean, counted, lasts⟩
  · exact .inr ⟨count, _, s', ran, bounded, between_resolving visited, lasts⟩

theorem materializeCallers_ready (lasts : s.Lasts (resolved ks m)) (listed : s.keys = .ok ks)
    (batchSize : Nat) (patience : Patience) :
    (∃ r left s', materializeCallers batchSize patience s = (.ok (r, left), s') ∧ r.errors = [] ∧
        s'.Lasts (settled ks m)) ∨
      ∃ count m' s', materializeCallers batchSize patience s = (.error (.cancelled count), s') ∧
        patience ≠ none ∧ Between ks m m' ∧ s'.Lasts m' := by
  rcases sweep_shows lasts.holds listed with ⟨cache, swept, holds⟩
  have phase : materializeCallers batchSize patience s =
      (Pass.givingCallers (.ofShards (ks.filterMap (resolved ks m)))).run batchSize patience 0
        { s with cache } := by
    rw [materializeCallers, run_bind, swept]
  rw [phase]
  generalize callers : CallerMap.ofShards (ks.filterMap (resolved ks m)) = found
  have keeps : (Pass.givingCallers found).Keeps (resolved ks m) := by
    intro key shard stored
    rcases Option.map_eq_some_iff.mp stored with ⟨before, -, rfl⟩
    exact Pass.givingCallers_keeps found (before.legible_resolve _)
  have tallies : (Pass.givingCallers found).Tallies (resolved ks m) fun _ => True :=
    ⟨fun _ _ _ => trivial, fun _ _ _ _ _ _ _ => trivial, fun _ _ => trivial⟩
  rcases Pass.run_lasts keeps tallies ⟨holds, lasts.writable⟩ trivial with
    ⟨r, left, s', ran, -, clean, -, lasts⟩ | ⟨count, visited, s', ran, bounded, lasts⟩
  · rw [Pass.givingCallers_apply, ← callers] at lasts
    exact .inl ⟨r, left, s', ran, clean, lasts⟩
  · rw [← callers] at lasts
    exact .inr ⟨count, _, s', ran, bounded, between_givingCallers visited, lasts⟩

theorem keys_of_between (ready : s.Ready ks m) (between : Between ks m m') (lasts : s'.Lasts m') :
    s'.keys = .ok ks := by
  rcases ready.shows with ⟨v, shows, -⟩
  rw [← ready.listed]
  exact keys_of_stored shows.toStored lasts.holds.toStored (ne_none_of_between between)

theorem on_ready (ready : s.Ready ks m) (run : Run) :
    (∃ r s', run.on s = (.ok r, s') ∧ r.errors = [] ∧
        (Resting ks m → r.data.shardsChanged = 0) ∧ s'.Lasts (settled ks m)) ∨
      ∃ count m' s', run.on s = (.error (.cancelled count), s') ∧ run.patience ≠ none ∧
        Between ks m m' ∧ s'.Lasts m' := by
  rw [Run.on, resolve, run_bind]
  rcases resolveEdges_ready ready run.batchSize run.patience with
    ⟨r, left, between, first, endless, clean, counted, lasts⟩ |
      ⟨count, m', s', first, bounded, between, lasts⟩
  · have listed : between.keys = .ok ks :=
      keys_of_between ready (fun _ => .inr (.inl rfl)) lasts
    rw [first]
    simp only [run_bind]
    rcases materializeCallers_ready lasts listed run.batchSize left with
      ⟨callers, rest, s', second, cleanCallers, settled⟩ |
        ⟨count, m', s', second, bounded, between, lasts⟩
    · rw [second]
      refine .inl ⟨_, s', rfl, ?_, counted, settled⟩
      rw [clean, cleanCallers, List.append_nil]
    · rw [second]
      exact .inr ⟨count, m', s', rfl, fun none => bounded (endless none), between, lasts⟩
  · rw [first]
    exact .inr ⟨count, m', s', rfl, bounded, between, lasts⟩

end Run

/-! ### Any number of runs -/

/-- A store lists these keys, and the shards that it has for them, read and loaded, differ from those
of another at most in how calls are resolved and in the callers. -/
structure Resembles (ks : List String) (t s : Store) : Prop where
  listed : t.keys = .ok ks
  shards : ∀ k ∈ ks, ∃ before now loaded, s.readShard k = some before ∧
    t.readShard k = some now ∧ (load k t).1 = some loaded ∧
    now.bare = before.bare ∧ loaded.bare = before.bare

/-- Two stores have the same shards for these keys. -/
structure SameShards (ks : List String) (t s : Store) : Prop where
  keys : t.keys = s.keys
  read : ∀ k ∈ ks, t.readShard k = s.readShard k
  loaded : ∀ k ∈ ks, (load k t).1 = (load k s).1

section Runs

variable {s t : Store} {ks : List String} {m m' : String → Option Shard}

theorem ready_members (ready : s.Ready ks m) (k : String) : k ∈ ks ↔ m k ≠ none := by
  rcases ready.shows with ⟨v, shows, -⟩
  rcases shows.listed with ⟨all, same, -, members⟩
  rw [ready.listed] at same
  cases same
  exact members k

theorem resembles_of_ready (before : s.Ready ks m) (now : t.Ready ks m')
    (alike : ∀ k, (m' k).map Shard.bare = (m k).map Shard.bare) : Resembles ks t s := by
  refine ⟨now.listed, fun k member => ?_⟩
  rcases before.shows with ⟨_, shown, -⟩
  rcases now.shows with ⟨v, shows, kept⟩
  have there := (ready_members now k).mp member
  rcases Option.ne_none_iff_exists'.mp ((ready_members before k).mp member) with ⟨old, stored⟩
  rcases Option.ne_none_iff_exists'.mp there with ⟨new, stored'⟩
  rcases load_shows shows there with ⟨cache, loading, -⟩
  have bare : new.bare = old.bare := by
    have same := alike k
    rw [stored, stored'] at same
    exact Option.some.inj same
  have loaded : ∃ own, v k = some own ∧ own.bare = new.bare := by
    have same := kept k
    rw [stored'] at same
    exact Option.map_eq_some_iff.mp same
  rcases loaded with ⟨own, seen, bare'⟩
  exact ⟨old, new, own, shown.read k old stored, shows.read k new stored',
    (congrArg Prod.fst loading).trans seen, bare, bare'.trans bare⟩

theorem sameShards_of_holds (first : t.Holds m) (second : s.Holds m) (listed : s.keys = .ok ks) :
    SameShards ks t s := by
  have stored : ∀ k ∈ ks, ∃ shard, m k = some shard := by
    rcases second.listed with ⟨all, same, -, members⟩
    rw [listed] at same
    cases same
    exact fun k member => Option.ne_none_iff_exists'.mp ((members k).mp member)
  refine ⟨keys_of_stored second.toStored first.toStored fun _ => Iff.rfl, fun k member => ?_,
    fun k member => ?_⟩
  · rcases stored k member with ⟨shard, found⟩
    rw [first.read k shard found, second.read k shard found]
  · rcases stored k member with ⟨shard, found⟩
    rcases load_holds first found with ⟨_, loaded, -⟩
    rcases load_holds second found with ⟨_, loaded', -⟩
    rw [loaded, loaded']

theorem sameShards_of_lasts (first : t.Lasts m) (second : s.Lasts m) (listed : s.keys = .ok ks) :
    SameShards ks t s :=
  sameShards_of_holds first.holds second.holds listed

theorem ready_on (ready : s.Ready ks m) (run : Run) :
    ∃ m', (run.on s).2.Ready ks m' ∧ Alike (names ks m) m' m := by
  rcases on_ready ready run with ⟨r, s', ran, -, -, lasts⟩ | ⟨count, m', s', ran, -, between, lasts⟩
  · have between := between_settled ks m
    rw [ran]
    exact ⟨_, ready_of_lasts lasts (keys_of_between ready between lasts), alike_of_between between⟩
  · rw [ran]
    exact ⟨m', ready_of_lasts lasts (keys_of_between ready between lasts), alike_of_between between⟩

theorem ready_after (ready : s.Ready ks m) (runs : List Run) :
    ∃ m', (s.after runs).Ready ks m' ∧ Alike (names ks m) m' m := by
  induction runs generalizing s m with
  | nil => exact ⟨m, ready, fun _ => rfl⟩
  | cons run rest ih =>
    rcases ready_on ready run with ⟨between, ready', alike⟩
    rcases ih ready' with ⟨m', ready'', alike'⟩
    have index : names ks between = names ks m := names_congr (bare_of_alike alike)
    rw [index] at alike'
    exact ⟨m', ready'', fun k => (alike' k).trans (alike k)⟩

theorem settled_on (ready : s.Ready ks m) {run : Run} {r : Outcome Diagnostics}
    (ran : run.on s = (.ok r, t)) :
    t.Lasts (settled ks m) ∧ t.keys = .ok ks ∧ (Resting ks m → r.data.shardsChanged = 0) := by
  rcases on_ready ready run with ⟨r', s', same, -, counted, lasts⟩ | ⟨_, _, _, cancelled, -⟩
  · rw [ran] at same
    cases same
    exact ⟨lasts, keys_of_between ready (between_settled ks m) lasts, counted⟩
  · rw [ran] at cancelled
    cases cancelled

theorem settled_after (lasts : s.Lasts (settled ks m)) (listed : s.keys = .ok ks)
    (runs : List Run) :
    (s.after runs).Lasts (settled ks m) ∧ (s.after runs).keys = .ok ks := by
  induction runs generalizing s with
  | nil => exact ⟨lasts, listed⟩
  | cons run rest ih =>
    have ready := ready_of_lasts lasts listed
    rcases on_ready ready run with ⟨r, s', ran, -, -, last⟩ | ⟨count, m', s', ran, -, between, last⟩
    · have keys := keys_of_between ready (between_settled ks _) last
      have same := settled_settled ks m
      rw [after_cons ran]
      exact ih (same ▸ last) keys
    · have keys := keys_of_between ready between last
      obtain rfl := eq_of_between_settled between
      rw [after_cons ran]
      exact ih last keys

/-- However often runs of the resolver are cancelled and begun again, in a store with shards of
finite confidences they change nothing but how calls are resolved and the callers. A run that
completes leaves what one run would have left at the start, and no run changes that any more. -/
theorem runs_converge (filled : s.Filled) :
    ∃ ks, s.keys = .ok ks ∧ ∀ runs : List Run,
      Resembles ks (s.after runs) s ∧
        (∀ run : Run, run.Ends (run.on (s.after runs)).1) ∧
        ∀ (run : Run) r t, run.on (s.after runs) = (.ok r, t) →
          (∀ (whole : Run) r' t', whole.on s = (.ok r', t') → SameShards ks t t') ∧
            ∀ later : List Run, SameShards ks (t.after later) t ∧
              ∀ (last : Run) r' t', last.on (t.after later) = (.ok r', t') →
                r'.data.shardsChanged = 0 := by
  rcases filled_ready filled with ⟨ks, m, ready⟩
  refine ⟨ks, ready.listed, fun runs => ?_⟩
  rcases ready_after ready runs with ⟨m', ready', alike⟩
  refine ⟨resembles_of_ready ready ready' (bare_of_alike alike), ?_, ?_⟩
  · intro run
    rcases on_ready ready' run with ⟨r, t, ran, clean, -⟩ | ⟨count, m'', t, ran, bounded, -⟩
    · rw [ran]
      exact .completed clean
    · rw [ran]
      exact .cancelled bounded
  · intro run r t ran
    rcases settled_on ready' ran with ⟨lasts, listed, -⟩
    rw [settled_congr alike] at lasts
    refine ⟨fun whole r' t' once => ?_, fun later => ?_⟩
    · rcases settled_on ready once with ⟨lasts', listed', -⟩
      exact sameShards_of_lasts lasts lasts' listed'
    · rcases settled_after lasts listed later with ⟨lasts', listed'⟩
      refine ⟨sameShards_of_lasts lasts' lasts listed, fun last r' t' further => ?_⟩
      exact (settled_on (ready_of_lasts lasts' listed') further).2.2 (resting_settled ks m)

end Runs

theorem filled_save {s : Store} {shard : Shard} (filled : s.Filled) (finite : shard.Finite)
    (saved : (save shard s).1.isOk = true) : (save shard s).2.Filled := by
  rcases outcome : save shard s with ⟨_ | key, s'⟩
  · rw [outcome] at saved
    cases saved
  · exact .save filled finite outcome

def blankStore : Store where
  root := "/t"
  disk := (Disk.empty.createDirectories "/t/files").2
  cache := { capacity := 1 }
  batchSize := 1
  topN := 1

/-- A function that calls itself, with a call and a caller as they may be left from before. -/
def staleShard : Shard where
  file := "a.py"
  functions := [{
    id := "a.py:f:1", name := "f", qualifiedName := "f", file := "a.py", startLine := 1, endLine := 9
    isEntryPoint := true, isDataAccessor := false
    calls := [⟨"f", true, some "b.py:g:1", 0.1, 3⟩]
    calledBy := [⟨"b.py:g:1", 7⟩]
    dataAccess := [] }]

def callerShard : Shard where
  file := "b.py"
  functions := [{
    id := "b.py:g:1", name := "g", qualifiedName := "g", file := "b.py", startLine := 1, endLine := 9
    isEntryPoint := false, isDataAccessor := false
    calls := [.unresolved "f" 4, .unresolved "h" 5]
    calledBy := [], dataAccess := [] }]

def loneShard : Shard where
  file := "c.py"
  functions := [{
    id := "c.py:k:1", name := "k", qualifiedName := "k", file := "c.py", startLine := 1, endLine := 9
    isEntryPoint := false, isDataAccessor := true
    calls := [], calledBy := [], dataAccess := [⟨"users", .read, 3, []⟩] }]

def staleStore : Store :=
  (save loneShard (save callerShard (save staleShard blankStore).2).2).2

theorem staleStore_filled : staleStore.Filled := by
  have finite : staleShard.Finite ∧ callerShard.Finite ∧ loneShard.Finite := by
    refine ⟨?_, ?_, ?_⟩ <;> decide +kernel
  have blank : blankStore.Filled := .empty (by decide +kernel) rfl
  have first := filled_save blank finite.1 (by decide +kernel)
  have second := filled_save first finite.2.1 (by decide +kernel)
  exact filled_save second finite.2.2 (by decide +kernel)

/-- A run from the start changes two shards of three; begun again after it was cancelled behind the
first batch, and in larger batches, it leaves the same. -/
theorem runs_converge_stale :
    staleStore.Filled ∧ ∃ ks r t r' t', staleStore.keys = .ok ks ∧
      Run.on ⟨2, none⟩ (staleStore.after [⟨1, some 0⟩]) = (.ok r, t) ∧
      Run.on ⟨1, none⟩ staleStore = (.ok r', t') ∧ r'.data.shardsChanged = 2 ∧
      Resembles ks (staleStore.after [⟨1, some 0⟩]) staleStore ∧ SameShards ks t t' := by
  have counted : (match Run.on ⟨1, none⟩ staleStore with
      | (.ok r, _) => decide (r.data.shardsChanged = 2)
      | (.error _, _) => false) = true := by
    decide +kernel
  rcases whole : Run.on ⟨1, none⟩ staleStore with ⟨_ | r', t'⟩
  · rw [whole] at counted
    cases counted
  · rw [whole] at counted
    rcases runs_converge staleStore_filled with ⟨ks, listed, converge⟩
    rcases converge [⟨1, some 0⟩] with ⟨resembles, ends, completed⟩
    rcases Run.completes (ends ⟨2, none⟩) rfl with ⟨r, t, again⟩
    exact ⟨staleStore_filled, ks, r, t, r', t', listed, again, rfl, of_decide_eq_true counted,
      resembles, (completed _ r t again).1 _ r' t' whole⟩

end Store

end DataReach
