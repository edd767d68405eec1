import DataReach.Proofs.Store.Holds
import DataReach.Store.Derived
import DataReach.Store.Resolver
/-!
The work over all shards of a store as scripts of single actions. A script runs as the work itself
does. Beside that it has a trace of the states in between, and runs in which some shards could not be
written, wherever that failed.
-/

namespace DataReach.Store

/-! ### Actions -/

inductive Action : Type → Type where
  | state : Action Store
  | load (key : String) : Action (Option Shard)
  | save (shard : Shard) : Action (Except StorageError String)
  | evict (key : String) : Action Unit
  | putIndex (shards : List Shard) (entries : List EntryPoint) :
      Action (Except StorageError GraphIndex)
  | putEntryPoints (entries : List EntryPoint) : Action (Except StorageError EntryPointList)

/-- Writing a shard failed: the disk is as it was, or has something at the place of the draft. -/
def Spoiled (shard : Shard) (s t : Store) : Prop :=
  t = s ∨ ∃ c disk, s.disk.write (shardPath s.root shard.key ++ ".tmp") c = .ok disk ∧
    t = { s with disk }

namespace Action

variable {β : Type}

def on : Action β → StateM Store β
  | state => get
  | load key => Store.load key
  | save shard => Store.save shard
  | evict key => Store.evict key
  | putIndex shards entries => Store.putIndex shards entries
  | putEntryPoints entries => Store.putEntryPoints entries

def Yields (x : Action β) (s : Store) (b : β) (t : Store) : Prop :=
  match x, b with
  | save shard, .error _ => Spoiled shard s t
  | x, b => x.on s = (b, t)

/-- An action where the shards of some keys cannot be written. -/
def hindered (fails : String → Option StorageError) : Action β → StateM Store β
  | save shard => fun s =>
    match fails shard.key with
    | some e => (.error e, s)
    | none => (save shard).on s
  | x => x.on

def write? : Action β → β → Option (String × Option StorageError)
  | save shard, .ok _ => some (shard.key, none)
  | save shard, .error e => some (shard.key, some e)
  | _, _ => none

end Action

theorem spoiled_of_save {shard : Shard} {s t : Store} {e : StorageError}
    (failed : save shard s = (.error e, t)) : Spoiled shard s t := by
  unfold save writeDocument at failed
  cases first : s.disk.write (shardPath s.root shard.key ++ ".tmp")
      (.document (shardDocument shard).reread) with
  | error cause =>
    simp only [first] at failed
    cases failed
    exact .inl rfl
  | ok disk =>
    simp only [first] at failed
    cases second : disk.rename (shardPath s.root shard.key ++ ".tmp")
        (shardPath s.root shard.key) with
    | error cause =>
      simp only [second] at failed
      cases failed
      exact .inr ⟨_, disk, first, rfl⟩
    | ok moved =>
      simp only [second] at failed
      cases failed

theorem yields_on {β : Type} (x : Action β) (s : Store) : x.Yields s (x.on s).1 (x.on s).2 := by
  cases x with
  | save shard =>
    rcases outcome : save shard s with ⟨e | key, t⟩
    · simp only [Action.on, outcome]
      exact spoiled_of_save outcome
    · simp only [Action.on, outcome]
      exact outcome
  | _ => rfl

theorem yields_hindered {β : Type} (fails : String → Option StorageError) (x : Action β)
    (s : Store) : x.Yields s (x.hindered fails s).1 (x.hindered fails s).2 := by
  cases x with
  | save shard =>
    cases blocked : fails shard.key with
    | none =>
      have free : (Action.save shard).hindered fails s = (Action.save shard).on s := by
        simp only [Action.hindered, blocked]
      rw [free]
      exact yields_on _ s
    | some e =>
      have stopped : (Action.save shard).hindered fails s = (.error e, s) := by
        simp only [Action.hindered, blocked]
      rw [stopped]
      exact .inl rfl
  | _ => rfl

/-! ### Scripts -/

inductive Script (α : Type) : Type 1 where
  | done (a : α)
  | act {β : Type} (x : Action β) (next : β → Script α)

/-- The state after an action, and the shard that it was to write. -/
structure Moment where
  after : Store
  write : Option (String × Option StorageError)

namespace Script

variable {α β : Type}

def bind : Script α → (α → Script β) → Script β
  | done a, f => f a
  | act x next, f => act x fun b => (next b).bind f

instance : Monad Script where
  pure := done
  bind := bind

def perform (x : Action β) : Script β := act x done

def run : Script α → StateM Store α
  | done a => pure a
  | act x next => do (next (← x.on)).run

def trace : Script α → Store → List Moment
  | done _, _ => []
  | act x next, s => ⟨(x.on s).2, x.write? (x.on s).1⟩ :: (next (x.on s).1).trace (x.on s).2

/-- The script where the shards of some keys cannot be written, with its trace. -/
def hindered (fails : String → Option StorageError) : Script α → Store → List Moment × α × Store
  | done a, s => ([], a, s)
  | act x next, s =>
    let (b, t) := x.hindered fails s
    let (moments, rest) := (next b).hindered fails t
    (⟨t, x.write? b⟩ :: moments, rest)

/-- A run with its trace, where any shard may turn out not to be written. -/
inductive Runs : Script α → Store → List Moment → α → Store → Prop
  | done (a : α) (s : Store) : Runs (.done a) s [] a s
  | act {β : Type} {x : Action β} {next : β → Script α} {s t u : Store} {b : β} {a : α}
      {moments : List Moment} : x.Yields s b t → Runs (next b) t moments a u →
      Runs (.act x next) s (⟨t, x.write? b⟩ :: moments) a u

theorem run_bind (x : Script α) (f : α → Script β) :
    (x >>= f).run = x.run >>= fun a => (f a).run := by
  induction x with
  | done a => rfl
  | act x next ih =>
    funext s
    change ((next (x.on s).1 >>= f).run) (x.on s).2 = _
    rw [ih]
    rfl

theorem run_perform (x : Action β) : (perform x).run = x.on := rfl

theorem runs_trace (x : Script α) (s : Store) :
    x.Runs s (x.trace s) (x.run s).1 (x.run s).2 := by
  induction x generalizing s with
  | done a => exact .done a s
  | act x next ih => exact .act (yields_on x s) (ih _ _)

theorem runs_hindered (fails : String → Option StorageError) (x : Script α) (s : Store) :
    x.Runs s (x.hindered fails s).1 (x.hindered fails s).2.1 (x.hindered fails s).2.2 := by
  induction x generalizing s with
  | done a => exact .done a s
  | act x next ih => exact .act (yields_hindered fails x s) (ih _ _)

theorem runs_pure {a b : α} {s t : Store} {moments : List Moment} :
    (pure a : Script α).Runs s moments b t ↔ moments = [] ∧ b = a ∧ t = s := by
  constructor
  · intro ran
    cases ran
    exact ⟨rfl, rfl, rfl⟩
  · rintro ⟨rfl, rfl, rfl⟩
    exact .done b t

theorem runs_perform {x : Action β} {b : β} {s t : Store} {moments : List Moment} :
    (perform x).Runs s moments b t ↔ x.Yields s b t ∧ moments = [⟨t, x.write? b⟩] := by
  constructor
  · intro ran
    cases ran with
    | act yields rest =>
      cases rest
      exact ⟨yields, rfl⟩
  · rintro ⟨yields, rfl⟩
    exact .act yields (.done b t)

theorem runs_bind {x : Script α} {f : α → Script β} {b : β} {s u : Store}
    {moments : List Moment} :
    (x >>= f).Runs s moments b u ↔ ∃ front a t back, moments = front ++ back ∧
      x.Runs s front a t ∧ (f a).Runs t back b u := by
  induction x generalizing s moments with
  | done a =>
    constructor
    · intro ran
      exact ⟨[], a, s, moments, rfl, .done a s, ran⟩
    · rintro ⟨front, a', t, back, rfl, first, rest⟩
      cases first
      exact rest
  | act x next ih =>
    constructor
    · intro ran
      cases ran with
      | act yields rest =>
        obtain ⟨front, a, t, back, rfl, first, last⟩ := (ih _).mp rest
        exact ⟨_ :: front, a, t, back, rfl, .act yields first, last⟩
    · rintro ⟨front, a, t, back, rfl, first, rest⟩
      cases first with
      | act yields before => exact .act yields ((ih _).mpr ⟨_, a, t, back, rfl, before, rest⟩)

/-- From states of a kind all runs of a script stay safe all along, and end as they should. -/
def Assures (safe P : Store → Prop) (x : Script α) (Q : α → Store → Prop) : Prop :=
  ∀ s moments a t, P s → x.Runs s moments a t → (∀ m ∈ moments, safe m.after) ∧ Q a t

section Assures

variable {safe P : Store → Prop} {Q : α → Store → Prop}

theorem assures_pure {a : α} (last : ∀ s, P s → Q a s) : Assures safe P (pure a) Q := by
  intro s moments b t start ran
  obtain ⟨rfl, rfl, rfl⟩ := runs_pure.mp ran
  exact ⟨nofun, last t start⟩

theorem assures_perform {x : Action α} (last : ∀ s a t, P s → x.Yields s a t → safe t ∧ Q a t) :
    Assures safe P (perform x) Q := by
  intro s moments a t start ran
  obtain ⟨yields, rfl⟩ := runs_perform.mp ran
  obtain ⟨fine, done⟩ := last s a t start yields
  refine ⟨fun m member => ?_, done⟩
  rw [List.mem_singleton.mp member]
  exact fine

theorem assures_bind {x : Script α} {f : α → Script β} {R : β → Store → Prop}
    (first : Assures safe P x Q) (rest : ∀ a, Assures safe (Q a) (f a) R) :
    Assures safe P (x >>= f) R := by
  intro s moments b u start ran
  obtain ⟨front, a, t, back, rfl, before, after⟩ := runs_bind.mp ran
  obtain ⟨fine, between⟩ := first s front a t start before
  obtain ⟨fineToo, last⟩ := rest a t back b u between after
  refine ⟨fun m member => ?_, last⟩
  exact (List.mem_append.mp member).elim (fine m) (fineToo m)

end Assures

/-! ### Visiting all shards -/

def loadEach : List String → Script (List Shard)
  | [] => return []
  | key :: rest => do
    let found ← perform (.load key)
    let others ← loadEach rest
    return found.toList ++ others

def evictEach : List String → Script Unit
  | [] => return ()
  | key :: rest => do
    perform (.evict key)
    evictEach rest

def sweepBatches : List (List String) → Script (List Shard)
  | [] => return []
  | batch :: rest => do
    let found ← loadEach batch
    evictEach batch
    let others ← sweepBatches rest
    return found ++ others

def sweep : Script (Except StorageError (List Shard)) := do
  let s ← perform .state
  match s.keys with
  | .error e => return .error e
  | .ok keys => return .ok (← sweepBatches (chunks s.batchSize keys))

def buildDerived : Script (Except StorageError (GraphIndex × EntryPointList)) := do
  match ← sweep with
  | .error e => return .error e
  | .ok shards =>
    let entries := EntryPoint.ofShards shards
    match ← perform (.putIndex shards entries) with
    | .error e => return .error e
    | .ok index =>
      match ← perform (.putEntryPoints entries) with
      | .error e => return .error e
      | .ok list => return .ok (index, list)

/-! ### Resolving -/

def step (p : Pass α) (key : String) (r : Outcome α) : Script (Outcome α) := do
  match ← perform (.load key) with
  | none => return r
  | some shard =>
    let r := { r with data := p.visit r.data shard }
    match p.change shard with
    | none => return r
    | some shard =>
      match ← perform (.save shard) with
      | .ok _ => return { r with data := p.saved r.data }
      | .error e => return r.add (.graph (.storage e))

def steps (p : Pass α) : List String → Outcome α → Script (Outcome α)
  | [], r => return r
  | key :: rest, r => do steps p rest (← step p key r)

def batch (p : Pass α) (keys : List String) (r : Outcome α) : Script (Outcome α) := do
  let r ← steps p keys r
  evictEach keys
  return { r with data := p.batchDone r.data }

def batches (p : Pass α) : (count : Nat) → Patience → List (List String) → Outcome α →
    Script (Except GraphError (Outcome α × Patience))
  | _, patience, [], r => return .ok (r, patience)
  | count, patience, keys :: rest, r => do
    let r ← batch p keys r
    match patience.ask? with
    | none => return .error (.cancelled (count + 1))
    | some patience => batches p (count + 1) patience rest r

def pass (p : Pass α) (batchSize : Nat) (patience : Patience) (start : α) :
    Script (Except GraphError (Outcome α × Patience)) := do
  match (← perform .state).keys with
  | .error e => return .error (.storage e)
  | .ok keys => batches p 0 patience (chunks batchSize keys) (.clean start)

def resolveEdges (batchSize : Nat) (patience : Patience) :
    Script (Except GraphError (Outcome Diagnostics × Patience)) := do
  match ← sweep with
  | .error e => return .error (.storage e)
  | .ok shards => pass (.resolving (.ofShards shards)) batchSize patience {}

def materializeCallers (batchSize : Nat) (patience : Patience) :
    Script (Except GraphError (Outcome Nat × Patience)) := do
  match ← sweep with
  | .error e => return .error (.storage e)
  | .ok shards => pass (.givingCallers (.ofShards shards)) batchSize patience 0

def resolve (batchSize : Nat) (patience : Patience) :
    Script (Except GraphError (Outcome Diagnostics)) := do
  match ← resolveEdges batchSize patience with
  | .error e => return .error e
  | .ok (r, patience) =>
    match ← materializeCallers batchSize patience with
    | .error e => return .error e
    | .ok (callers, _) => return .ok { r with errors := r.errors ++ callers.errors }

/-! ### The scripts and the work -/

theorem run_loadEach (keys : List String) : (loadEach keys).run = Store.loadEach keys := by
  induction keys with
  | nil => rfl
  | cons key rest ih =>
    rw [loadEach, Store.loadEach, run_bind]
    simp only [run_bind, ih]
    rfl

theorem run_evictEach (keys : List String) : (evictEach keys).run = Store.evictEach keys := by
  induction keys with
  | nil => rfl
  | cons key rest ih =>
    rw [evictEach, Store.evictEach, run_bind, ih]
    rfl

theorem run_sweepBatches (batches : List (List String)) :
    (sweepBatches batches).run = Store.sweepBatches batches := by
  induction batches with
  | nil => rfl
  | cons batch rest ih =>
    rw [sweepBatches, Store.sweepBatches, run_bind, run_loadEach]
    simp only [run_bind, run_evictEach, ih]
    rfl

theorem run_sweep : sweep.run = Store.sweep := by
  funext s
  rw [sweep, Store.sweep, run_bind, Store.run_bind, Store.run_bind]
  change (match s.keys with
    | .error e => _
    | .ok keys => _ : Script (Except StorageError (List Shard))).run s = _
  rw [Store.run_get]
  cases s.keys with
  | error e => rfl
  | ok keys =>
    simp only [run_bind, run_sweepBatches]
    rfl

theorem run_buildDerived : buildDerived.run = Store.buildDerived := by
  funext s
  rw [buildDerived, Store.buildDerived, run_bind, run_sweep, Store.run_bind, Store.run_bind]
  rcases Store.sweep s with ⟨e | shards, t⟩
  · rfl
  · simp only [run_bind, run_perform, Action.on, Store.run_bind]
    rcases putIndex shards (EntryPoint.ofShards shards) t with ⟨e | index, u⟩
    · rfl
    · simp only [run_bind, run_perform, Action.on, Store.run_bind]
      rcases putEntryPoints (EntryPoint.ofShards shards) u with ⟨e | list, v⟩ <;> rfl

theorem run_step (p : Pass α) (key : String) (r : Outcome α) :
    (step p key r).run = p.step key r := by
  funext s
  rw [step, Pass.step, run_bind, run_perform, Store.run_bind, Store.run_bind]
  rcases found : load key s with ⟨_ | shard, t⟩
  · simp only [Action.on, found]
    rfl
  · simp only [Action.on, found]
    cases p.change shard with
    | none => rfl
    | some changed =>
      simp only [run_bind, run_perform, Action.on, Store.run_bind]
      rcases save changed t with ⟨e | key, u⟩ <;> rfl

theorem run_steps (p : Pass α) (keys : List String) (r : Outcome α) :
    (steps p keys r).run = p.steps keys r := by
  induction keys generalizing r with
  | nil => rfl
  | cons key rest ih =>
    rw [steps, Pass.steps, run_bind, run_step]
    simp only [ih]

theorem run_batch (p : Pass α) (keys : List String) (r : Outcome α) :
    (batch p keys r).run = p.batch keys r := by
  rw [batch, Pass.batch, run_bind, run_steps]
  simp only [run_bind, run_evictEach]
  rfl

theorem run_batches (p : Pass α) (count : Nat) (patience : Patience)
    (parts : List (List String)) (r : Outcome α) :
    (batches p count patience parts r).run = p.batches count patience parts r := by
  induction parts generalizing count patience r with
  | nil => rfl
  | cons keys rest ih =>
    rw [batches, Pass.batches, run_bind, run_batch]
    congr 1
    funext r'
    cases patience.ask? with
    | none => rfl
    | some left => exact ih _ _ _

theorem run_pass (p : Pass α) (batchSize : Nat) (patience : Patience) (start : α) :
    (pass p batchSize patience start).run = p.run batchSize patience start := by
  funext s
  rw [pass, Pass.run, run_bind, Store.run_bind, Store.run_bind]
  change (match s.keys with
    | .error e => _
    | .ok keys => _ : Script (Except GraphError (Outcome α × Patience))).run s = _
  rw [Store.run_get]
  cases s.keys with
  | error e => rfl
  | ok keys => exact congrFun (run_batches ..) s

theorem run_resolveEdges (batchSize : Nat) (patience : Patience) :
    (resolveEdges batchSize patience).run = Store.resolveEdges batchSize patience := by
  funext s
  rw [resolveEdges, Store.resolveEdges, run_bind, run_sweep, Store.run_bind, Store.run_bind,
    nameIndex, Store.run_bind]
  rcases Store.sweep s with ⟨e | shards, t⟩
  · rfl
  · exact congrFun (run_pass ..) t

theorem run_materializeCallers (batchSize : Nat) (patience : Patience) :
    (materializeCallers batchSize patience).run = Store.materializeCallers batchSize patience := by
  funext s
  rw [materializeCallers, Store.materializeCallers, run_bind, run_sweep, Store.run_bind,
    Store.run_bind]
  rcases Store.sweep s with ⟨e | shards, t⟩
  · rfl
  · exact congrFun (run_pass ..) t

theorem run_resolve (batchSize : Nat) (patience : Patience) :
    (resolve batchSize patience).run = Store.resolve batchSize patience := by
  funext s
  rw [resolve, Store.resolve, run_bind, run_resolveEdges, Store.run_bind, Store.run_bind]
  rcases Store.resolveEdges batchSize patience s with ⟨e | ⟨r, left⟩, t⟩
  · rfl
  · simp only [run_bind, run_materializeCallers, Store.run_bind]
    rcases Store.materializeCallers batchSize left t with ⟨e | ⟨callers, rest⟩, u⟩ <;> rfl

end Script

end DataReach.Store
