import DataReach.Proofs.Store.Entries
/-!
Entries that no shard can be read from are passed over. They take their places in the listing and
shift the ends of the batches; whatever is asked of all shards comes to the same, and they stay.
-/

namespace DataReach

/-! ### Keys that count for nothing -/

section Keys

variable {β : Type} {ks ks' : List String}

theorem filter_listed (ascending : ks.Pairwise (· < ·)) (ascending' : ks'.Pairwise (· < ·))
    (subset : ∀ k ∈ ks, k ∈ ks') : ks'.filter (· ∈ ks) = ks := by
  apply (ascending'.filter _).eq_of_mem_iff ascending
  intro k
  rw [List.mem_filter, decide_eq_true_eq]
  exact ⟨fun both => both.2, fun member => ⟨subset k member, member⟩⟩

theorem filterMap_listed (ascending : ks.Pairwise (· < ·)) (ascending' : ks'.Pairwise (· < ·))
    (subset : ∀ k ∈ ks, k ∈ ks') {f f' : String → Option β} (same : ∀ k ∈ ks, f' k = f k)
    (none : ∀ k ∈ ks', k ∉ ks → f' k = none) : ks'.filterMap f' = ks.filterMap f := by
  calc ks'.filterMap f' = (ks'.filter (· ∈ ks)).filterMap f' := by
        rw [List.filterMap_filter]
        apply List.filterMap_congr
        intro k member
        by_cases own : k ∈ ks
        · simp [own]
        · simp [own, none k member own]
    _ = ks.filterMap f' := by rw [filter_listed ascending ascending' subset]
    _ = ks.filterMap f := List.filterMap_congr same

theorem filter_clutter (ascending : ks.Pairwise (· < ·)) (ascending' : ks'.Pairwise (· < ·))
    (subset : ∀ k ∈ ks, k ∈ ks') {f f' : String → Bool} (same : ∀ k ∈ ks, f' k = f k)
    (none : ∀ k ∈ ks', k ∉ ks → f' k = false) : ks'.filter f' = ks.filter f := by
  have options : ∀ (xs : List String) (g : String → Bool),
      xs.filter g = xs.filterMap fun k => if g k then some k else Option.none := by
    intro xs g
    exact (List.filterMap_eq_filter (p := g) ▸ rfl)
  rw [options, options]
  apply filterMap_listed ascending ascending' subset
  · intro k member
    rw [same k member]
  · intro k member other
    rw [none k member other]
    rfl

end Keys

namespace Pass

variable {α β : Type} {p : Pass α} {view : α → β}

theorem view_tally (overlooks : p.Overlooks view) {a b : α} (same : view a = view b)
    (shards : List Shard) : view (p.tally a shards) = view (p.tally b shards) := by
  induction shards generalizing a b with
  | nil => exact same
  | cons shard rest ih =>
    apply ih
    rw [count, count]
    cases p.change shard with
    | none => exact overlooks.visit shard same
    | some new => exact overlooks.saved (overlooks.visit shard same)

theorem view_counted (overlooks : p.Overlooks view) (m : String → Option Shard)
    (parts : List (List String)) (start : α) :
    view (p.counted m parts start) = view (p.tally start (parts.flatten.filterMap m)) := by
  induction parts generalizing start with
  | nil => rfl
  | cons part rest ih =>
    have joined : p.tally start ((part :: rest).flatten.filterMap m) =
        p.tally (p.tally start (part.filterMap m)) (rest.flatten.filterMap m) := by
      rw [List.flatten_cons, List.filterMap_append]
      exact List.foldl_append
    rw [joined]
    calc view (p.counted m (part :: rest) start)
      _ = view (p.tally (p.batchDone (p.tally start (part.filterMap m)))
            (rest.flatten.filterMap m)) := ih _
      _ = view (p.tally (p.tally start (part.filterMap m)) (rest.flatten.filterMap m)) :=
          view_tally overlooks (overlooks.batchDone _) _

theorem view_of_saved (cancels : ∀ a b, view (p.saved a) = view (p.saved b) → view a = view b)
    (n : Nat) {a b : α} (same : view (p.saved^[n] a) = view (p.saved^[n] b)) : view a = view b := by
  induction n with
  | zero => exact same
  | succ n ih =>
    rw [Function.iterate_succ_apply', Function.iterate_succ_apply'] at same
    exact ih (cancels _ _ same)

end Pass

namespace Store

variable {α β : Type} {s t : Store} {ks ks' : List String} {place : Place}

/-! ### Two stores -/

/-- A store, and another one that lists more keys. Nothing is shown for these, and otherwise the same
is shown and the same is in the way of writing. -/
structure Cluttered (ks ks' : List String) (place : Place) (s t : Store) : Prop where
  keyed : s.Keyed ks
  keyed' : t.Keyed ks'
  subset : ∀ k ∈ ks, k ∈ ks'
  shown : ∀ k ∈ ks, t.shown k = s.shown k
  read : ∀ k ∈ ks, t.readShard k = s.readShard k
  hidden : ∀ k ∈ ks', k ∉ ks → t.shown k = none
  housed : s.Housed place
  housed' : t.Housed place
  hurdles : ∀ k ∈ ks, t.hurdle k = s.hurdle k

theorem Cluttered.unread (cluttered : Cluttered ks ks' place s t) {k : String} (member : k ∈ ks')
    (junk : k ∉ ks) : t.readShard k = none := by
  have none := cluttered.hidden k member junk
  rw [Store.shown, Option.or_eq_none_iff] at none
  exact none.2

theorem cluttered_shown (cluttered : Cluttered ks ks' place s t) :
    ks'.filterMap t.shown = ks.filterMap s.shown :=
  filterMap_listed cluttered.keyed.ascending cluttered.keyed'.ascending cluttered.subset
    cluttered.shown cluttered.hidden

theorem cluttered_sweep (cluttered : Cluttered ks ks' place s t) :
    (sweep t).1 = (sweep s).1 := by
  rw [sweep_fst cluttered.keyed'.listed cluttered.keyed'.once,
    sweep_fst cluttered.keyed.listed cluttered.keyed.once, cluttered_shown cluttered]

/-! ### Entries that stay -/

theorem at?_writeDocument {base : String} {x y : FileName} {q : Place} (proper : x.Proper)
    (below : s.disk.Descends [] (Path.steps base) q) (other : y ≠ x) (notDraft : y ≠ draftName x)
    (j : Json) (rest : Place) :
    (s.writeDocument (Path.join base x.text) j).2.disk.at? (q ++ y :: rest) =
      s.disk.at? (q ++ y :: rest) := by
  rcases outcome : s.writeDocument (Path.join base x.text) j with ⟨e | _, t⟩
  · rcases writeDocument_failed outcome with rfl | ⟨q', children, d', rfl, below', edited⟩
    · rfl
    · obtain rfl := Disk.descends_unique below below'
      rw [Disk.at?_below edited.holds, Disk.at?_below edited.held, Dict.get?_insert,
        if_neg notDraft]
  · obtain ⟨-, q', children, d', rfl, below', edited⟩ := writeDocument_ok proper outcome
    obtain rfl := Disk.descends_unique below below'
    rw [Disk.at?_below edited.holds, Disk.at?_below edited.held, get?_replaced other notDraft]

theorem at?_writeDocument_root {x : FileName} (proper : x.Proper) (other : filesName ≠ x)
    (notDraft : filesName ≠ draftName x)
    (housed : s.Housed place) (y : FileName) (j : Json) :
    (s.writeDocument (Path.join s.root x.text) j).2.disk.at? (place ++ [y]) =
      s.disk.at? (place ++ [y]) := by
  obtain ⟨q, children, opened, rfl⟩ := descends_filesDir.mp housed.inside
  rw [List.append_assoc, List.singleton_append]
  exact at?_writeDocument proper opened.below other notDraft j [y]

def Spares (place : Place) (x : StateM Store α) : Prop :=
  ∀ s : Store, s.Housed place →
    Grounded s (x s).2 ∧ ∀ y, (x s).2.disk.at? (place ++ [y]) = s.disk.at? (place ++ [y])

theorem spares_of_recaches {x : StateM Store α} (recaches : Recaches x) : Spares place x := by
  intro s housed
  refine ⟨grounded_recached (recaches s), ?_⟩
  rw [(recaches s).same]
  exact fun _ => rfl

theorem spares_pure (a : α) : Spares place (pure a) := spares_of_recaches (recaches_pure a)

theorem spares_bind {x : StateM Store α} {f : α → StateM Store β} (first : Spares place x)
    (rest : ∀ a, Spares place (f a)) : Spares place (x >>= f) := by
  intro s housed
  obtain ⟨grounded, same⟩ := first s housed
  obtain ⟨grounded', same'⟩ := rest (x s).1 (x s).2 (grounded.housed housed)
  exact ⟨grounded_trans grounded grounded', fun y => (same' y).trans (same y)⟩

theorem spares_putIndex (shards : List Shard) (entries : List EntryPoint) :
    Spares place (putIndex shards entries) := by
  intro s housed
  rw [putIndex_snd, indexPath_eq]
  exact ⟨grounded_writeDocument proper_indexName _ _ s, fun y =>
    at?_writeDocument_root proper_indexName (by decide) (by decide) housed y _⟩

theorem spares_putEntryPoints (entries : List EntryPoint) :
    Spares place (putEntryPoints entries) := by
  intro s housed
  rw [putEntryPoints_snd, entryPointsPath_eq]
  exact ⟨grounded_writeDocument proper_entryPointsName _ _ s, fun y =>
    at?_writeDocument_root proper_entryPointsName (by decide) (by decide) housed y _⟩

theorem at?_on (x : Action β) {s : Store}
    (housed : s.Housed place) {y : FileName} {k : String}
    (named : keyOfName y.text = some k) (apart : ∀ w, x.write? (x.on s).1 = some w → w.1 ≠ k) :
    (x.on s).2.disk.at? (place ++ [y]) = s.disk.at? (place ++ [y]) := by
  cases x with
  | state => rfl
  | load key =>
    simp only [Action.on]
    rw [(recaches_load key s).same]
  | evict key => rfl
  | save shard =>
    have plain : '/' ∉ shard.key.toList := plain_shardKey shard.file
    have differs : shard.key ≠ k := by
      simp only [Action.on, save_fst] at apart
      cases blocked : s.hurdle shard.key with
      | none =>
        simp only [blocked] at apart
        exact apart _ rfl
      | some e =>
        simp only [blocked] at apart
        exact apart _ rfl
    have other : y ≠ docName shard.key plain := by
      rintro rfl
      have own := keyOfName_iff.mpr ⟨rfl, shardKey_ne_empty shard.file⟩
      exact differs (Option.some.inj (own.symm.trans named))
    have notDraft : y ≠ draftName (docName shard.key plain) := by
      rintro rfl
      rw [keyOfName_draft] at named
      cases named
    have kept := at?_writeDocument (proper_docName plain) housed.inside other notDraft
      (shardDocument shard) []
    rw [← shardPath_eq] at kept
    simp only [Action.on]
    rw [save_disk]
    exact kept
  | putIndex shards entries =>
    simp only [Action.on]
    exact (spares_putIndex shards entries s housed).2 y
  | putEntryPoints entries =>
    simp only [Action.on]
    exact (spares_putEntryPoints entries s housed).2 y

theorem at?_run (x : Script α) {s : Store}
    (housed : s.Housed place) {y : FileName} {k : String}
    (named : keyOfName y.text = some k) (apart : k ∉ attempts (x.trace s)) :
    (x.run s).2.disk.at? (place ++ [y]) = s.disk.at? (place ++ [y]) := by
  induction x generalizing s with
  | done a => rfl
  | act x next ih =>
    have grounded := grounded_on x s
    have first : ∀ w, x.write? (x.on s).1 = some w → w.1 ≠ k := by
      rintro w write rfl
      apply apart
      exact List.mem_filterMap.mpr ⟨_, List.mem_cons_self .., by simp only [write]; rfl⟩
    have later : k ∉ attempts ((next (x.on s).1).trace (x.on s).2) := by
      intro member
      obtain ⟨m, inside, write⟩ := List.mem_filterMap.mp member
      exact apart (List.mem_filterMap.mpr ⟨m, List.mem_cons_of_mem _ inside, write⟩)
    exact (ih _ (grounded.housed housed) later).trans (at?_on x housed named first)

/-! ### Passes -/

/-- One pass over all shards of each of two such stores: what it came to, and its trace. -/
structure Passed (p : Pass α) (ks ks' : List String) (s t : Store) (parts parts' : List (List String))
    (start : α) (l l' : List Moment) (r r' : Outcome α) (u v : Store) : Prop where
  tells : Tells p s.readShard ks ks [] (p.counted s.readShard parts start) l r u
  tells' : Tells p t.readShard ks' ks' [] (p.counted t.readShard parts' start) l' r' v
  all : parts.flatten = ks
  all' : parts'.flatten = ks'
  dictated : Dictated s l
  dictated' : Dictated t l'

section Passed

variable {p : Pass α} {parts parts' : List (List String)} {start : α} {l l' : List Moment}
  {r r' : Outcome α} {u v : Store} {k : String}

theorem Cluttered.idle (cluttered : Cluttered ks ks' place s t) (p : Pass α) (member : k ∈ ks')
    (junk : k ∉ ks) : p.alters t.readShard k = false := by
  rw [Pass.alters, cluttered.unread member junk]
  rfl

variable (cluttered : Cluttered ks ks' place s t)
  (passed : Passed p ks ks' s t parts parts' start l l' r r' u v)

include passed

theorem passed_own (member : k ∈ attempts l) : k ∈ ks := by
  rw [passed.tells.attempts] at member
  exact (List.mem_filter.mp member).1

include cluttered

theorem passed_attempts : attempts l' = attempts l := by
  rw [passed.tells'.attempts, passed.tells.attempts]
  apply filter_clutter cluttered.keyed.ascending cluttered.keyed'.ascending cluttered.subset
  · intro k member
    rw [Pass.alters, Pass.alters, cluttered.read k member]
  · exact fun k => cluttered.idle p

theorem passed_failures : failures l' = failures l := by
  rw [failures_dictated passed.dictated', failures_dictated passed.dictated,
    passed_attempts cluttered passed]
  apply List.filterMap_congr
  intro k member
  rw [cluttered.hurdles k (passed_own passed member)]

theorem passed_errors : r'.errors = r.errors := by
  rw [passed.tells'.errors, passed.tells.errors, recorded, recorded, passed_failures cluttered passed]

theorem passed_data {view : α → β} (overlooks : p.Overlooks view)
    (cancels : ∀ a b, view (p.saved a) = view (p.saved b) → view a = view b) :
    view r'.data = view r.data := by
  have visited := filterMap_listed cluttered.keyed.ascending cluttered.keyed'.ascending
    cluttered.subset cluttered.read fun k => cluttered.unread
  have data' := passed.tells'.data
  rw [passed_failures cluttered passed] at data'
  apply Pass.view_of_saved cancels (failures l).length
  calc view (p.saved^[(failures l).length] r'.data)
    _ = view (p.tally start (ks'.filterMap t.readShard)) := by
        rw [data', Pass.view_counted overlooks, passed.all']
    _ = view (p.tally start (ks.filterMap s.readShard)) := by rw [visited]
    _ = view (p.saved^[(failures l).length] r.data) := by
        rw [passed.tells.data, Pass.view_counted overlooks, passed.all]

theorem passed_read (member : k ∈ ks) : v.readShard k = u.readShard k := by
  have plain := cluttered.keyed.plain member
  rw [passed.tells'.read k plain, passed.tells.read k plain, failed, failed,
    passed_failures cluttered passed, Pass.rewritten, Pass.rewritten, cluttered.read k member]
  simp only [member, cluttered.subset k member]

theorem passed_unread (member : k ∈ ks') (junk : k ∉ ks) : v.readShard k = none := by
  rw [passed.tells'.read k (cluttered.keyed'.plain member),
    Pass.rewritten_of_idle (cluttered.idle p member junk), ite_self, cluttered.unread member junk]

theorem cluttered_passed (grounded : Grounded s u) (grounded' : Grounded t v) :
    Cluttered ks ks' place u v where
  keyed := passed.tells.keyed
  keyed' := passed.tells'.keyed
  subset := cluttered.subset
  shown := by
    intro k member
    rw [shown_of_tells passed.tells' (cluttered.subset k member), shown_of_tells passed.tells member,
      passed_read cluttered passed member]
  read k member := passed_read cluttered passed member
  hidden := by
    intro k member junk
    rw [shown_of_tells passed.tells' member, passed_unread cluttered passed member junk]
  housed := grounded.housed cluttered.housed
  housed' := grounded'.housed cluttered.housed'
  hurdles := by
    intro k member
    have plain := cluttered.keyed.plain member
    rw [hurdle_grounded cluttered.housed' plain grounded',
      hurdle_grounded cluttered.housed plain grounded, cluttered.hurdles k member]

end Passed

theorem cluttered_swept {P : List Shard → Pass α} (rekeys : ∀ shards, (P shards).Rekeys)
    (defers : ∀ shards, (P shards).Defers) {view : α → β}
    (overlooks : ∀ shards, (P shards).Overlooks view)
    (cancels : ∀ shards a b, view ((P shards).saved a) = view ((P shards).saved b) →
      view a = view b)
    (cluttered : Cluttered ks ks' place s t) (start : α) {size size' : Nat}
    (x x' : Script (Except GraphError (Outcome α × Patience)))
    (script : x = (Script.sweep >>= fun
      | .error e => pure (.error (.storage e))
      | .ok shards => Script.pass (P shards) size none start))
    (script' : x' = (Script.sweep >>= fun
      | .error e => pure (.error (.storage e))
      | .ok shards => Script.pass (P shards) size' none start)) :
    ∃ r r', (x.run s).1 = .ok (r, none) ∧ (x'.run t).1 = .ok (r', none) ∧ r'.errors = r.errors ∧
      view r'.data = view r.data ∧ Cluttered ks ks' place (x.run s).2 (x'.run t).2 ∧
      ∀ y k, keyOfName y.text = some k → k ∉ ks →
        (x'.run t).2.disk.at? (place ++ [y]) = t.disk.at? (place ++ [y]) := by
  have ran := x.runs_trace s
  have ran' := x'.runs_trace t
  rw [script] at ran
  rw [script'] at ran'
  obtain ⟨r, ended, tells⟩ := tells_swept rekeys defers cluttered.keyed ran
  obtain ⟨r', ended', tells'⟩ := tells_swept rekeys defers cluttered.keyed' ran'
  rw [← script] at ended tells
  rw [← script'] at ended' tells'
  have all : (Patience.gone none (chunks size ks)).flatten = ks := flatten_chunks size ks
  have all' : (Patience.gone none (chunks size' ks')).flatten = ks' := flatten_chunks size' ks'
  rw [all] at tells
  rw [all', cluttered_shown cluttered] at tells'
  have passed : Passed (P (ks.filterMap s.shown)) ks ks' s t _ _ start (x.trace s) (x'.trace t) r r'
      (x.run s).2 (x'.run t).2 :=
    ⟨tells, tells', all, all', dictated_trace x cluttered.housed, dictated_trace x' cluttered.housed'⟩
  refine ⟨r, r', ended, ended', passed_errors cluttered passed,
    passed_data cluttered passed (overlooks _) (cancels _),
    cluttered_passed cluttered passed (grounded_run x s) (grounded_run x' t), ?_⟩
  intro y k named junk
  apply at?_run x' cluttered.housed' named
  rw [passed_attempts cluttered passed]
  exact fun member => junk (passed_own passed member)

end Store

end DataReach
