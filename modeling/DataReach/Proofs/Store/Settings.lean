import DataReach.Build
import DataReach.Proofs.Store.Holds
/-!
Where a store is and how long its lists are is settled when it is opened: none of its actions changes
that.
-/

namespace DataReach.Store

variable {α β : Type}

def Steady (x : StateM Store α) : Prop :=
  ∀ s, (x s).2.root = s.root ∧ (x s).2.topN = s.topN

theorem steady_pure (a : α) : Steady (pure a) := fun _ => ⟨rfl, rfl⟩

theorem steady_bind {x : StateM Store α} {f : α → StateM Store β} (first : Steady x)
    (rest : ∀ a, Steady (f a)) : Steady (x >>= f) := by
  intro s
  rcases first s with ⟨root, topN⟩
  rcases rest (x s).1 (x s).2 with ⟨root', topN'⟩
  exact ⟨root'.trans root, topN'.trans topN⟩

theorem steady_get : Steady get := fun _ => ⟨rfl, rfl⟩

/-! ### Shards -/

theorem steady_writeDocument (path : String → String) (j : Json) :
    Steady fun s => s.writeDocument (path s.root) j := by
  intro s
  simp only [writeDocument]
  split
  · exact ⟨rfl, rfl⟩
  · split <;> exact ⟨rfl, rfl⟩

theorem steady_save (shard : Shard) : Steady (save shard) := by
  intro s
  have written := steady_writeDocument (shardPath · shard.key) (shardDocument shard) s
  simp only at written
  unfold save
  rcases outcome : s.writeDocument (shardPath s.root shard.key) (shardDocument shard) with
    ⟨_ | _, between⟩
  · rwa [outcome] at written
  · rwa [outcome] at written

theorem steady_load (key : String) : Steady (load key) := by
  intro s
  simp only [load]
  split
  · exact ⟨rfl, rfl⟩
  · split <;> exact ⟨rfl, rfl⟩

theorem steady_evict (key : String) : Steady (evict key) := fun _ => ⟨rfl, rfl⟩

theorem steady_evictAll : Steady evictAll := fun _ => ⟨rfl, rfl⟩

theorem steady_removeFile (path : String → String) :
    Steady fun s => s.removeFile (path s.root) := by
  intro s
  simp only [removeFile]
  split <;> exact ⟨rfl, rfl⟩

theorem steady_delete (key : String) : Steady (delete key) :=
  steady_bind (steady_evict key) fun _ => steady_removeFile (shardPath · key)

theorem steady_deleteEach (keys : List String) : Steady (deleteEach keys) := by
  induction keys with
  | nil => exact steady_pure _
  | cons key rest ih =>
    refine steady_bind (steady_delete key) fun outcome => ?_
    cases outcome with
    | error e => exact steady_pure _
    | ok existed => exact ih

theorem steady_removeEach (paths : List String) : Steady (removeEach paths) := by
  induction paths with
  | nil => exact steady_pure _
  | cons path rest ih =>
    refine steady_bind (steady_removeFile fun _ => path) fun outcome => ?_
    cases outcome with
    | error e => exact steady_pure _
    | ok existed => exact ih

theorem steady_clear : Steady clear := by
  refine steady_bind steady_get fun s => ?_
  cases s.keys with
  | error e => exact steady_pure _
  | ok keys =>
    refine steady_bind (steady_deleteEach keys) fun outcome => ?_
    cases outcome with
    | error e => exact steady_pure _
    | ok done =>
      refine steady_bind (steady_removeEach _) fun outcome => ?_
      cases outcome with
      | error e => exact steady_pure _
      | ok done => exact steady_bind steady_evictAll fun _ => steady_pure _

theorem steady_evictEach (keys : List String) : Steady (evictEach keys) := by
  induction keys with
  | nil => exact steady_pure _
  | cons key rest ih => exact steady_bind (steady_evict key) fun _ => ih

theorem steady_loadEach (keys : List String) : Steady (loadEach keys) := by
  induction keys with
  | nil => exact steady_pure _
  | cons key rest ih =>
    exact steady_bind (steady_load key) fun _ => steady_bind ih fun _ => steady_pure _

theorem steady_sweepBatches (batches : List (List String)) : Steady (sweepBatches batches) := by
  induction batches with
  | nil => exact steady_pure _
  | cons batch rest ih =>
    refine steady_bind (steady_loadEach batch) fun _ => ?_
    refine steady_bind (steady_evictEach batch) fun _ => ?_
    exact steady_bind ih fun _ => steady_pure _

theorem steady_sweep : Steady sweep := by
  refine steady_bind steady_get fun s => ?_
  cases s.keys with
  | error e => exact steady_pure _
  | ok keys => exact steady_bind (steady_sweepBatches _) fun _ => steady_pure _

theorem steady_writeEach (shards : List Shard) : Steady (writeEach shards) := by
  induction shards with
  | nil => exact steady_pure _
  | cons shard rest ih =>
    refine steady_bind (steady_save shard) fun outcome => ?_
    cases outcome with
    | error e => exact steady_bind ih fun _ => steady_pure _
    | ok key =>
      exact steady_bind (steady_evict key) fun _ => steady_bind ih fun _ => steady_pure _

/-! ### Resolving -/

section Pass

variable (p : Pass α)

theorem steady_step (key : String) (r : Outcome α) : Steady (p.step key r) := by
  refine steady_bind (steady_load key) fun found => ?_
  cases found with
  | none => exact steady_pure _
  | some shard =>
    cases changed : p.change shard with
    | none =>
      simp only [changed]
      exact steady_pure _
    | some new =>
      simp only [changed]
      refine steady_bind (steady_save new) fun outcome => ?_
      cases outcome <;> exact steady_pure _

theorem steady_steps (keys : List String) (r : Outcome α) : Steady (p.steps keys r) := by
  induction keys generalizing r with
  | nil => exact steady_pure _
  | cons key rest ih => exact steady_bind (steady_step p key r) ih

theorem steady_batch (keys : List String) (r : Outcome α) : Steady (p.batch keys r) :=
  steady_bind (steady_steps p keys r) fun _ =>
    steady_bind (steady_evictEach keys) fun _ => steady_pure _

theorem steady_batches (done : Nat) (patience : Patience) (batches : List (List String))
    (r : Outcome α) : Steady (p.batches done patience batches r) := by
  induction batches generalizing done patience r with
  | nil => exact steady_pure _
  | cons keys rest ih =>
    refine steady_bind (steady_batch p keys r) fun r => ?_
    cases patience.ask? with
    | none => exact steady_pure _
    | some left => exact ih (done + 1) left r

theorem steady_run (batchSize : Nat) (patience : Patience) (start : α) :
    Steady (p.run batchSize patience start) := by
  refine steady_bind steady_get fun s => ?_
  cases s.keys with
  | error e => exact steady_pure _
  | ok keys => exact steady_batches p 0 patience _ _

end Pass

theorem steady_resolveEdges (batchSize : Nat) (patience : Patience) :
    Steady (resolveEdges batchSize patience) := by
  have index : Steady nameIndex := by
    refine steady_bind steady_sweep fun outcome => ?_
    cases outcome <;> exact steady_pure _
  refine steady_bind index fun outcome => ?_
  cases outcome with
  | error e => exact steady_pure _
  | ok index => exact steady_run (.resolving index) batchSize patience {}

theorem steady_materializeCallers (batchSize : Nat) (patience : Patience) :
    Steady (materializeCallers batchSize patience) := by
  refine steady_bind steady_sweep fun outcome => ?_
  cases outcome with
  | error e => exact steady_pure _
  | ok shards => exact steady_run _ batchSize patience 0

theorem steady_resolve (batchSize : Nat) (patience : Patience) :
    Steady (resolve batchSize patience) := by
  refine steady_bind (steady_resolveEdges batchSize patience) fun outcome => ?_
  cases outcome with
  | error e => exact steady_pure _
  | ok found =>
    refine steady_bind (steady_materializeCallers batchSize found.2) fun outcome => ?_
    cases outcome <;> exact steady_pure _

end DataReach.Store
