import DataReach.Proofs.Store.Keyed
import DataReach.Proofs.Store.Tally
/-!
Runs of a pass in which some shards could not be written. What such a run comes to depends on the
documents, the batches and the patience, and on which shards these were; nothing else is different
for them.
-/

namespace DataReach

/-! ### What a pass is to do -/

namespace Pass

variable {α : Type} {p : Pass α} {m : String → Option Shard}

def alters (p : Pass α) (m : String → Option Shard) (k : String) : Bool :=
  ((m k).bind p.change).isSome

def rewritten (p : Pass α) (m : String → Option Shard) (k : String) : Option Shard :=
  (m k).bind fun shard =>
    match p.change shard with
    | none => some shard
    | some new => new.reread?

def counted (p : Pass α) (m : String → Option Shard) (parts : List (List String)) (start : α) : α :=
  parts.foldl (fun a part => p.batchDone (p.tally a (part.filterMap m))) start

structure Defers (p : Pass α) : Prop where
  visit : ∀ a shard, p.visit (p.saved a) shard = p.saved (p.visit a shard)
  batchDone : ∀ a, p.batchDone (p.saved a) = p.saved (p.batchDone a)

theorem visit_deferred (defers : p.Defers) (n : Nat) (a : α) (shard : Shard) :
    p.visit (p.saved^[n] a) shard = p.saved^[n] (p.visit a shard) := by
  induction n generalizing a with
  | zero => rfl
  | succ n ih => rw [Function.iterate_succ_apply, ih, defers.visit, Function.iterate_succ_apply]

theorem batchDone_deferred (defers : p.Defers) (n : Nat) (a : α) :
    p.batchDone (p.saved^[n] a) = p.saved^[n] (p.batchDone a) := by
  induction n generalizing a with
  | zero => rfl
  | succ n ih => rw [Function.iterate_succ_apply, ih, defers.batchDone, Function.iterate_succ_apply]

theorem defers_resolving (index : NameIndex) : (resolving index).Defers where
  visit := by
    intro d shard
    change shard.diagnose index { d with shardsChanged := d.shardsChanged + 1 } =
      { shard.diagnose index d with
        shardsChanged := (shard.diagnose index d).shardsChanged + 1 }
    rw [Shard.diagnose, Shard.diagnose]
    generalize shard.functions.flatMap (·.calls) = edges
    induction edges generalizing d with
    | nil => rfl
    | cons e rest ih =>
      rw [List.foldl_cons, List.foldl_cons, ← ih]
      cases (e.outcome shard.file index).map (·.2) <;> rfl
  batchDone := fun _ => rfl

theorem defers_givingCallers (m : CallerMap) : (givingCallers m).Defers :=
  ⟨fun _ _ => rfl, fun _ => rfl⟩

theorem rewritten_of_idle {k : String} (idle : p.alters m k = false) : p.rewritten m k = m k := by
  unfold alters at idle
  unfold rewritten
  cases found : m k with
  | none => rfl
  | some shard =>
    rw [found, Option.bind_some] at idle
    rw [Option.bind_some, Option.not_isSome_iff_eq_none.mp (Bool.eq_false_iff.mp idle)]

end Pass

/-! ### Patience -/

namespace Patience

def gone {β : Type} : Patience → List β → List β
  | none, parts => parts
  | some n, parts => parts.take (n + 1)

def ending {α : Type} (patience : Patience) (count todo : Nat) (r : Outcome α) :
    Except GraphError (Outcome α × Patience) :=
  match patience with
  | none => .ok (r, none)
  | some n => if n < todo then .error (.cancelled (count + n + 1)) else .ok (r, some (n - todo))

end Patience

namespace Store

/-! ### Writes -/

def Moment.failure? (m : Moment) : Option (String × StorageError) :=
  m.write.bind fun w => w.2.map (w.1, ·)

def attempts (moments : List Moment) : List String := moments.filterMap fun m => m.write.map (·.1)

def failures (moments : List Moment) : List (String × StorageError) :=
  moments.filterMap Moment.failure?

def failed (moments : List Moment) : List String := (failures moments).map (·.1)

def recorded (moments : List Moment) : List BuildError :=
  (failures moments).map fun f => .graph (.storage f.2)

variable {front back : List Moment}

theorem attempts_append : attempts (front ++ back) = attempts front ++ attempts back :=
  List.filterMap_append

theorem failures_append : failures (front ++ back) = failures front ++ failures back :=
  List.filterMap_append

theorem failed_append : failed (front ++ back) = failed front ++ failed back := by
  rw [failed, failures_append, List.map_append]
  rfl

theorem recorded_append : recorded (front ++ back) = recorded front ++ recorded back := by
  rw [recorded, failures_append, List.map_append]
  rfl

def Still (moments : List Moment) : Prop := ∀ m ∈ moments, m.write = none

theorem still_append : Still (front ++ back) ↔ Still front ∧ Still back := by
  simp only [Still, List.mem_append, or_imp, forall_and]

theorem attempts_still (still : Still front) : attempts front = [] := by
  apply List.filterMap_eq_nil_iff.mpr
  intro m member
  rw [still m member]
  rfl

theorem failures_still (still : Still front) : failures front = [] := by
  apply List.filterMap_eq_nil_iff.mpr
  intro m member
  rw [Moment.failure?, still m member]
  rfl

/-! ### Scripts that write no shard -/

def Action.Quiet {β : Type} : Action β → Prop
  | save _ => False
  | _ => True

theorem yields_quiet {β : Type} {x : Action β} {s t : Store} {b : β} (quiet : x.Quiet)
    (yields : x.Yields s b t) : x.on s = (b, t) ∧ x.write? b = none := by
  cases x with
  | save shard => exact quiet.elim
  | _ => exact ⟨yields, rfl⟩

namespace Script

variable {α β : Type} {s t : Store} {moments : List Moment}

def Quiet : Script α → Prop
  | done _ => True
  | act x next => x.Quiet ∧ ∀ b, (next b).Quiet

theorem quiet_bind {x : Script α} {f : α → Script β} (first : x.Quiet) (rest : ∀ a, (f a).Quiet) :
    (x >>= f).Quiet := by
  induction x with
  | done a => exact rest a
  | act x next ih => exact ⟨first.1, fun b => ih b (first.2 b)⟩

theorem runs_quiet {x : Script α} {a : α} (quiet : x.Quiet) (ran : x.Runs s moments a t) :
    x.run s = (a, t) ∧ Still moments := by
  induction ran with
  | done a s => exact ⟨rfl, nofun⟩
  | @act β x next s t u b a moments yields _ ih =>
    obtain ⟨same, none⟩ := yields_quiet quiet.1 yields
    obtain ⟨rest, still⟩ := ih (quiet.2 b)
    constructor
    · change (next (x.on s).1).run (x.on s).2 = _
      rw [same, rest]
    · intro m member
      rcases List.mem_cons.mp member with rfl | later
      · exact none
      · exact still m later

theorem quiet_loadEach (keys : List String) : (loadEach keys).Quiet := by
  induction keys with
  | nil => exact trivial
  | cons key rest ih =>
    have first : (perform (.load key)).Quiet := ⟨trivial, fun _ => trivial⟩
    exact quiet_bind first fun _ => quiet_bind ih fun _ => trivial

theorem quiet_evictEach (keys : List String) : (evictEach keys).Quiet := by
  induction keys with
  | nil => exact trivial
  | cons key rest ih => exact ⟨trivial, fun _ => ih⟩

theorem quiet_sweepBatches (parts : List (List String)) : (sweepBatches parts).Quiet := by
  induction parts with
  | nil => exact trivial
  | cons part rest ih =>
    apply quiet_bind (quiet_loadEach part)
    intro _
    apply quiet_bind (quiet_evictEach part)
    intro _
    exact quiet_bind ih fun _ => trivial

theorem quiet_sweep : sweep.Quiet := by
  have asked : (perform .state).Quiet := ⟨trivial, fun _ => trivial⟩
  apply quiet_bind asked
  intro s
  cases s.keys with
  | error e => exact trivial
  | ok keys => exact quiet_bind (quiet_sweepBatches _) fun _ => trivial

end Script

/-! ### After a sweep -/

section Sweep

variable {s : Store} {ks : List String}

theorem get?_evictEach {keys : List String} {k : String} {s : Store}
    (gone : s.cache.shards.get? k = none ∨ k ∈ keys) :
    (evictEach keys s).2.cache.shards.get? k = none := by
  induction keys generalizing s with
  | nil => exact gone.resolve_right List.not_mem_nil
  | cons key rest ih =>
    have first : (evict key s).2.cache.shards.get? k =
        if k = key then none else s.cache.shards.get? k :=
      Dict.get?_erase ..
    rw [evictEach, run_bind]
    apply ih
    rw [first]
    rcases gone with absent | member
    · rw [absent, ite_self]
      exact .inl rfl
    · rcases List.mem_cons.mp member with same | later
      · exact .inl (if_pos same)
      · exact .inr later

theorem get?_load {key k : String} (other : k ≠ key) (s : Store) :
    (load key s).2.cache.shards.get? k = s.cache.shards.get? k := by
  rw [load, Cache.find]
  cases s.cache.shards.get? key with
  | some kept => rfl
  | none =>
    cases s.readShard key with
    | none => rfl
    | some shard =>
      rcases @get?_insert_cache { s.cache with misses := s.cache.misses + 1 } key shard k with
        old | ⟨same, -⟩
      · exact old
      · exact absurd same other

theorem get?_loadEach {keys : List String} {k : String} (other : k ∉ keys) (s : Store) :
    (loadEach keys s).2.cache.shards.get? k = s.cache.shards.get? k := by
  induction keys generalizing s with
  | nil => rfl
  | cons key rest ih =>
    rw [List.mem_cons, not_or] at other
    rw [loadEach, run_bind, run_bind, run_pure]
    exact (ih other.2 _).trans (get?_load other.1 s)

theorem get?_sweepBatches {parts : List (List String)} {k : String} {s : Store}
    (gone : s.cache.shards.get? k = none ∨ k ∈ parts.flatten) :
    (sweepBatches parts s).2.cache.shards.get? k = none := by
  induction parts generalizing s with
  | nil => exact gone.resolve_right List.not_mem_nil
  | cons part rest ih =>
    rw [sweepBatches, run_bind, run_bind, run_bind, run_pure]
    apply ih
    by_cases own : k ∈ part
    · exact .inl (get?_evictEach (.inr own))
    · rw [List.flatten_cons, List.mem_append, or_iff_right own] at gone
      apply gone.imp_left
      intro absent
      apply get?_evictEach
      rw [get?_loadEach own, absent]
      exact .inl rfl

theorem get?_sweep (keyed : Keyed s ks) {k : String} (member : k ∈ ks) :
    (sweep s).2.cache.shards.get? k = none := by
  rw [sweep, run_bind, run_get]
  simp only [keyed.listed, run_bind, run_pure]
  apply get?_sweepBatches
  rw [flatten_chunks]
  exact .inr member

end Sweep

/-! ### Runs of a pass -/

theorem failed_subset (moments : List Moment) : failed moments ⊆ attempts moments := by
  intro k member
  obtain ⟨⟨key, e⟩, failure, rfl⟩ := List.mem_map.mp member
  obtain ⟨m, inside, wrote⟩ := List.mem_filterMap.mp failure
  obtain ⟨⟨key', outcome⟩, write, told⟩ := Option.bind_eq_some_iff.mp wrote
  obtain ⟨e', -, same⟩ := Option.map_eq_some_iff.mp told
  cases same
  refine List.mem_filterMap.mpr ⟨m, inside, ?_⟩
  rw [write]
  rfl

/-- What a run of a pass has come to when it is done with some keys, of which some may still be held
in the cache. At first the documents were `m`; the total is what is counted if all shards can be
written. -/
structure Tells {α : Type} (p : Pass α) (m : String → Option Shard) (ks done held : List String)
    (total : α) (moments : List Moment) (r : Outcome α) (s : Store) : Prop where
  keyed : s.Keyed ks
  bare : ∀ k ∈ ks, k ∉ held → s.cache.shards.get? k = none
  read : ∀ k, '/' ∉ k.toList →
    s.readShard k = if k ∈ done ∧ k ∉ failed moments then p.rewritten m k else m k
  attempts : attempts moments = done.filter (p.alters m)
  errors : r.errors = recorded moments
  data : p.saved^[(failures moments).length] r.data = total

section Tells

variable {α : Type} {p : Pass α} {m : String → Option Shard} {ks done held : List String}
  {total : α} {moments more : List Moment} {r r' : Outcome α} {s t : Store} {key : String}

theorem Tells.failed_done (tells : Tells p m ks done held total moments r s) :
    ∀ k ∈ failed moments, k ∈ done := by
  intro k member
  have attempted := failed_subset moments member
  rw [tells.attempts] at attempted
  exact (List.mem_filter.mp attempted).1

theorem tells_still (tells : Tells p m ks done held total moments r s) (recached : Recached s t)
    {held' : List String} (bare : ∀ k ∈ ks, k ∉ held' → t.cache.shards.get? k = none)
    (still : Still more) : Tells p m ks done held' total (moments ++ more) r t where
  keyed := keyed_recached tells.keyed recached
  bare := bare
  read := by
    intro k plain
    have none : failed more = [] := by rw [failed, failures_still still, List.map_nil]
    have files := (unwritten_of_recached recached).files
    rw [failed_append, none, List.append_nil, files.read k plain, tells.read k plain]
  attempts := by rw [attempts_append, attempts_still still, List.append_nil, tells.attempts]
  errors := by
    rw [recorded_append, tells.errors, recorded, recorded, failures_still still, List.map_nil,
      List.append_nil]
  data := by rw [failures_append, failures_still still, List.append_nil, tells.data]

theorem tells_idle (tells : Tells p m ks done held total moments r s) (idle : p.alters m key = false)
    {total' : α} (errors : r'.errors = r.errors)
    (data : p.saved^[(failures moments).length] r'.data = total') :
    Tells p m ks (done ++ [key]) held total' moments r' s where
  keyed := tells.keyed
  bare := tells.bare
  read := by
    intro k plain
    rw [tells.read k plain]
    by_cases same : k = key
    · rw [same, Pass.rewritten_of_idle idle, ite_self, ite_self]
    · simp [same]
  attempts := by rw [tells.attempts, List.filter_append]; simp [idle]
  errors := errors.trans tells.errors
  data := data

theorem tells_failed (tells : Tells p m ks done held total moments r s) (fresh : key ∉ done)
    (altered : p.alters m key = true) {e : StorageError} {new : Shard}
    (spoiled : Spoiled new s t) {a total' : α}
    (data : p.saved^[(failures moments).length] a = total') :
    Tells p m ks (done ++ [key]) held (p.saved total') (moments ++ [⟨t, some (key, some e)⟩])
      (Outcome.add ⟨a, r.errors⟩ (.graph (.storage e))) t where
  keyed := keyed_spoiled tells.keyed spoiled
  bare := by
    obtain ⟨-, disk, rfl⟩ := spoiled_files spoiled
    exact tells.bare
  read := by
    intro k plain
    have own : failed [⟨t, some (key, some e)⟩] = [key] := rfl
    rw [(spoiled_files spoiled).1.read k plain, tells.read k plain, failed_append, own]
    by_cases same : k = key
    · simp [same, fresh]
    · simp [same]
  attempts := by
    rw [attempts_append, tells.attempts, List.filter_append]
    simp [altered, Store.attempts]
  errors := by
    rw [recorded_append, Outcome.add, tells.errors]
    rfl
  data := by
    rw [failures_append, List.length_append]
    change p.saved^[(failures moments).length + 1] a = p.saved total'
    rw [Function.iterate_succ_apply', data]

theorem tells_saved (tells : Tells p m ks done held total moments r s) (fresh : key ∉ done)
    (listed : key ∈ ks) (here : key ∈ held) {shard new : Shard} (found : m key = some shard)
    (changed : p.change shard = some new) (own : new.key = key) {wrote : String}
    (saved : save new s = (.ok wrote, t)) {a total' : α}
    (data : p.saved^[(failures moments).length] a = total') :
    Tells p m ks (done ++ [key]) held (p.saved total') (moments ++ [⟨t, some (key, none)⟩])
      ⟨p.saved a, r.errors⟩ t := by
  obtain ⟨keyed, readOwn, readOthers, disk, same⟩ :=
    save_listed tells.keyed (own.symm ▸ listed) saved
  have cache : t.cache = s.cache.insert new.key new := congrArg Store.cache same
  rw [own] at readOwn readOthers
  have altered : p.alters m key = true := by simp [Pass.alters, found, changed]
  have kept : failed (moments ++ [⟨t, some (key, none)⟩]) = failed moments := by
    rw [failed_append]
    exact List.append_nil _
  constructor
  · exact keyed
  · intro k member absent
    rw [cache]
    rcases @get?_insert_cache s.cache new.key new k with old | ⟨same, -⟩
    · rw [old, tells.bare k member absent]
    · exact absurd (same.trans own ▸ here) absent
  · intro k plain
    rw [kept]
    by_cases same : k = key
    · have intact : key ∉ failed moments := fun member => fresh (tells.failed_done key member)
      rw [same, readOwn]
      simp [intact, Pass.rewritten, found, changed]
    · rw [readOthers k plain same, tells.read k plain]
      simp [same]
  · rw [attempts_append, tells.attempts, List.filter_append]
    simp [altered, Store.attempts]
  · rw [recorded_append, tells.errors]
    exact (List.append_nil _).symm
  · rw [failures_append]
    change p.saved^[(failures moments ++ []).length] (p.saved a) = p.saved total'
    rw [List.append_nil, ← Function.iterate_succ_apply, Function.iterate_succ_apply', data]

/-- A key that the run has not come to yet: what is loaded for it is its shard as it was at first. -/
theorem tells_loaded (tells : Tells p m ks done held total moments r s) (listed : key ∈ ks)
    (fresh : key ∉ done) (within : ∀ k ∈ held, k ∈ done) {found : Option Shard}
    (loaded : load key s = (found, t)) :
    m key = found ∧
      Tells p m ks done (held ++ [key]) total (moments ++ [⟨t, none⟩]) r t := by
  have state : (load key s).2 = t := congrArg Prod.snd loaded
  have bare : ∀ k ∈ ks, k ∉ held ++ [key] → t.cache.shards.get? k = none := by
    intro k member absent
    rw [List.mem_append, not_or, List.mem_singleton] at absent
    rw [← state, get?_load absent.2, tells.bare k member absent.1]
  constructor
  · have document : s.readShard key = m key := by
      rw [tells.read key (tells.keyed.plain listed), if_neg fun both => fresh both.1]
    have uncached := tells.bare key listed fun inside => fresh (within key inside)
    have given : found = s.shown key := by rw [← load_fst, loaded]
    rw [given, shown, uncached, Option.none_or, document]
  · exact tells_still tells (state ▸ recaches_load key s) bare fun _ member =>
      List.mem_singleton.mp member ▸ rfl

theorem tells_step (rekeys : p.Rekeys) (defers : p.Defers)
    (tells : Tells p m ks done held total moments r s) (listed : key ∈ ks) (fresh : key ∉ done)
    (within : ∀ k ∈ held, k ∈ done) (ran : (Script.step p key r).Runs s more r' t) :
    Tells p m ks (done ++ [key]) (held ++ [key]) (p.tally total ([key].filterMap m))
      (moments ++ more) r' t := by
  obtain ⟨front, found, u, back, rfl, first, rest⟩ := Script.runs_bind.mp ran
  obtain ⟨loaded, rfl⟩ := Script.runs_perform.mp first
  obtain ⟨shard, between⟩ := tells_loaded tells listed fresh within loaded
  change Tells p m ks _ _ _ (moments ++ ([⟨u, none⟩] ++ back)) r' t
  rw [← List.append_assoc]
  cases found with
  | none =>
    obtain ⟨rfl, rfl, rfl⟩ := Script.runs_pure.mp rest
    have idle : p.alters m key = false := by simp [Pass.alters, shard]
    have tallied : p.tally total ([key].filterMap m) = total := by simp [shard, Pass.tally]
    rw [List.append_nil, tallied]
    exact tells_idle between idle rfl between.data
  | some old =>
    have visited : p.saved^[(failures (moments ++ [⟨u, none⟩])).length] (p.visit r.data old) =
        p.visit total old := by
      rw [← Pass.visit_deferred defers, between.data]
    cases changed : p.change old with
    | none =>
      simp only [changed] at rest
      obtain ⟨rfl, rfl, rfl⟩ := Script.runs_pure.mp rest
      have idle : p.alters m key = false := by simp [Pass.alters, shard, changed]
      have tallied : p.tally total ([key].filterMap m) = p.visit total old := by
        simp [shard, Pass.tally, Pass.count, changed]
      rw [List.append_nil, tallied]
      exact tells_idle between idle rfl visited
    | some new =>
      simp only [changed] at rest
      obtain ⟨wrote, outcome, v, last, rfl, second, ends⟩ := Script.runs_bind.mp rest
      obtain ⟨yields, rfl⟩ := Script.runs_perform.mp second
      have read : u.readShard key = some old := by
        rw [between.read key (tells.keyed.plain listed), if_neg fun both => fresh both.1, shard]
      have own : new.key = key :=
        (rekeys old new changed).trans (between.keyed.own key listed old read)
      have altered : p.alters m key = true := by simp [Pass.alters, shard, changed]
      have tallied : p.tally total ([key].filterMap m) = p.saved (p.visit total old) := by
        simp [shard, Pass.tally, Pass.count, changed]
      rw [tallied, ← List.append_assoc]
      cases outcome with
      | error e =>
        obtain ⟨rfl, rfl, rfl⟩ := Script.runs_pure.mp ends
        rw [List.append_nil, Action.write?, own]
        exact tells_failed between fresh altered yields visited
      | ok wrote =>
        obtain ⟨rfl, rfl, rfl⟩ := Script.runs_pure.mp ends
        rw [List.append_nil, Action.write?, own]
        exact tells_saved between fresh listed (List.mem_append_right held (List.mem_singleton_self key))
          shard changed own yields visited

theorem tells_steps (rekeys : p.Rekeys) (defers : p.Defers) {keys : List String}
    (tells : Tells p m ks done held total moments r s) (listed : ∀ k ∈ keys, k ∈ ks)
    (fresh : (done ++ keys).Nodup) (within : ∀ k ∈ held, k ∈ done)
    (ran : (Script.steps p keys r).Runs s more r' t) :
    Tells p m ks (done ++ keys) (held ++ keys) (p.tally total (keys.filterMap m)) (moments ++ more)
      r' t := by
  induction keys generalizing done held total moments more r s with
  | nil =>
    obtain ⟨rfl, rfl, rfl⟩ := Script.runs_pure.mp ran
    simpa [Pass.tally] using tells
  | cons key rest ih =>
    obtain ⟨front, r₁, u, back, rfl, first, others⟩ := Script.runs_bind.mp ran
    have notDone : key ∉ done := by
      intro before
      exact (List.nodup_append.mp fresh).2.2 key before key (List.mem_cons_self ..) rfl
    have one := tells_step rekeys defers tells (listed key (List.mem_cons_self ..)) notDone within
      first
    have regrouped : ∀ xs, xs ++ key :: rest = (xs ++ [key]) ++ rest := by simp
    have more : ∀ k ∈ held ++ [key], k ∈ done ++ [key] := by
      intro k member
      rcases List.mem_append.mp member with inside | own
      · exact List.mem_append_left _ (within k inside)
      · exact List.mem_append_right _ own
    have tallied : p.tally total ((key :: rest).filterMap m) =
        p.tally (p.tally total ([key].filterMap m)) (rest.filterMap m) := by
      rw [Pass.tally, Pass.tally, Pass.tally, ← List.foldl_append, ← List.filterMap_append]
      rfl
    rw [regrouped] at fresh
    rw [regrouped, regrouped, tallied, ← List.append_assoc]
    exact ih one (fun k later => listed k (List.mem_cons_of_mem key later)) fresh more others

theorem tells_batch (rekeys : p.Rekeys) (defers : p.Defers) {keys : List String}
    (tells : Tells p m ks done [] total moments r s) (listed : ∀ k ∈ keys, k ∈ ks)
    (fresh : (done ++ keys).Nodup) (ran : (Script.batch p keys r).Runs s more r' t) :
    Tells p m ks (done ++ keys) [] (p.batchDone (p.tally total (keys.filterMap m)))
      (moments ++ more) r' t := by
  obtain ⟨front, r₁, u, rest, rfl, first, later⟩ := Script.runs_bind.mp ran
  obtain ⟨middle, _, v, back, rfl, second, last⟩ := Script.runs_bind.mp later
  obtain ⟨rfl, rfl, rfl⟩ := Script.runs_pure.mp last
  obtain ⟨evicted, still⟩ := Script.runs_quiet (Script.quiet_evictEach keys) second
  rw [Script.run_evictEach] at evicted
  have state : (evictEach keys u).2 = t := congrArg Prod.snd evicted
  have stepped := tells_steps rekeys defers tells listed fresh nofun first
  have bare : ∀ k ∈ ks, k ∉ [] → t.cache.shards.get? k = none := by
    intro k member _
    rw [← state]
    by_cases own : k ∈ keys
    · exact get?_evictEach (.inr own)
    · exact get?_evictEach (.inl (stepped.bare k member own))
  have after := tells_still stepped (state ▸ recaches_evictEach keys u) bare still
  rw [List.append_nil, ← List.append_assoc]
  exact ⟨after.keyed, after.bare, after.read, after.attempts, after.errors,
    (Pass.batchDone_deferred defers _ _).symm.trans (congrArg p.batchDone after.data)⟩

theorem tells_batches (rekeys : p.Rekeys) (defers : p.Defers) {parts : List (List String)}
    {count : Nat} {patience : Patience} {out : Except GraphError (Outcome α × Patience)}
    (tells : Tells p m ks done [] total moments r s) (listed : ∀ k ∈ parts.flatten, k ∈ ks)
    (fresh : (done ++ parts.flatten).Nodup)
    (ran : (Script.batches p count patience parts r).Runs s more out t) :
    ∃ r', out = patience.ending count parts.length r' ∧
      Tells p m ks (done ++ (patience.gone parts).flatten) []
        (p.counted m (patience.gone parts) total) (moments ++ more) r' t := by
  induction parts generalizing done total moments more r s count patience with
  | nil =>
    obtain ⟨rfl, rfl, rfl⟩ := Script.runs_pure.mp ran
    refine ⟨r, by cases patience <;> rfl, ?_⟩
    rw [List.append_nil]
    cases patience <;> simpa [Patience.gone, Pass.counted] using tells
  | cons keys rest ih =>
    rw [List.flatten_cons] at listed fresh
    rw [← List.append_assoc] at fresh
    obtain ⟨front, r₁, u, back, rfl, first, others⟩ := Script.runs_bind.mp ran
    have one := tells_batch rekeys defers tells
      (fun k member => listed k (List.mem_append_left _ member)) (List.nodup_append.mp fresh).1 first
    have inside : ∀ k ∈ rest.flatten, k ∈ ks := fun k later =>
      listed k (List.mem_append_right keys later)
    rw [← List.append_assoc]
    match patience with
    | none =>
      obtain ⟨r', rfl, after⟩ := ih one inside fresh others
      rw [List.append_assoc] at after
      exact ⟨r', rfl, after⟩
    | some 0 =>
      obtain ⟨rfl, rfl, rfl⟩ := Script.runs_pure.mp others
      refine ⟨r₁, rfl, ?_⟩
      rw [List.append_nil]
      simpa [Patience.gone, Pass.counted] using one
    | some (n + 1) =>
      obtain ⟨r', rfl, after⟩ := ih one inside fresh others
      rw [List.append_assoc] at after
      refine ⟨r', ?_, after⟩
      simp only [Patience.ending, List.length_cons, Nat.add_lt_add_iff_right, Nat.add_sub_add_right,
        Nat.add_assoc, Nat.add_comm 1]

theorem tells_begun (keyed : s.Keyed ks) (bare : ∀ k ∈ ks, s.cache.shards.get? k = none)
    (still : Still moments) (start : α) :
    Tells p s.readShard ks [] [] start moments (.clean start) s where
  keyed := keyed
  bare k member _ := bare k member
  read k _ := by simp
  attempts := attempts_still still
  errors := by rw [recorded, failures_still still]; rfl
  data := by rw [failures_still still]; rfl

theorem tells_pass (rekeys : p.Rekeys) (defers : p.Defers) (keyed : s.Keyed ks)
    (bare : ∀ k ∈ ks, s.cache.shards.get? k = none) (still : Still moments) {batchSize : Nat}
    {patience : Patience} {start : α} {out : Except GraphError (Outcome α × Patience)}
    (ran : (Script.pass p batchSize patience start).Runs s more out t) :
    ∃ r, out = patience.ending 0 (chunks batchSize ks).length r ∧
      Tells p s.readShard ks (patience.gone (chunks batchSize ks)).flatten []
        (p.counted s.readShard (patience.gone (chunks batchSize ks)) start) (moments ++ more) r
        t := by
  obtain ⟨front, _, u, back, rfl, first, rest⟩ := Script.runs_bind.mp ran
  obtain ⟨state, rfl⟩ := Script.runs_perform.mp first
  cases state
  simp only [keyed.listed] at rest
  have quiet : Still (moments ++ [⟨s, none⟩]) :=
    still_append.mpr ⟨still, fun _ member => List.mem_singleton.mp member ▸ rfl⟩
  have all := flatten_chunks batchSize ks
  have ran := tells_batches rekeys defers (tells_begun keyed bare quiet start)
    (by rw [all]; exact fun _ member => member) (by rw [all]; exact keyed.once) rest
  rwa [List.append_assoc] at ran

theorem tells_swept {P : List Shard → Pass α} (rekeys : ∀ shards, (P shards).Rekeys)
    (defers : ∀ shards, (P shards).Defers) (keyed : s.Keyed ks) {batchSize : Nat}
    {patience : Patience} {start : α} {out : Except GraphError (Outcome α × Patience)}
    (ran : (Script.sweep >>= fun
      | .error e => pure (.error (.storage e))
      | .ok shards => Script.pass (P shards) batchSize patience start).Runs s moments out t) :
    ∃ r, out = patience.ending 0 (chunks batchSize ks).length r ∧
      Tells (P (ks.filterMap s.shown)) s.readShard ks (patience.gone (chunks batchSize ks)).flatten
        [] ((P (ks.filterMap s.shown)).counted s.readShard (patience.gone (chunks batchSize ks)) start)
        moments r t := by
  obtain ⟨front, swept, u, back, rfl, first, rest⟩ := Script.runs_bind.mp ran
  obtain ⟨same, still⟩ := Script.runs_quiet Script.quiet_sweep first
  rw [Script.run_sweep] at same
  have state : (sweep s).2 = u := congrArg Prod.snd same
  have found := sweep_fst keyed.listed keyed.once
  rw [same] at found
  cases found
  have recached : Recached s u := state ▸ recaches_sweep s
  have bare : ∀ k ∈ ks, u.cache.shards.get? k = none := by
    intro k member
    rw [← state]
    exact get?_sweep keyed member
  have read : u.readShard = s.readShard := by
    rw [recached.same]
    rfl
  rw [← read]
  exact tells_pass (rekeys _) (defers _) (keyed_recached keyed recached) bare still rest

end Tells

end Store

end DataReach
