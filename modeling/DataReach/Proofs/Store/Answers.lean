import DataReach.Proofs.Build
import DataReach.Proofs.Convergence
import DataReach.Proofs.Sorting
import DataReach.Proofs.Store.Removal
import DataReach.Store.Queries
/-!
What a store answers to questions about the call graph. It follows from what loading gives, and that
changes with the cache: shards that were saved lose what their documents do not keep.
-/

namespace DataReach

namespace Store

def answersOf (ks : List String) (v : String → Option Shard) (root : String) : Answers
  | .function id =>
    (FunctionNode.fileOfId id).bind fun file => (v (shardKey file)).bind (·.function? id)
  | .inFile file => ((v (shardKey file)).map (·.functions)).getD []
  | .named name => selectFrom (·.isNamed name) (ks.filterMap v)
  | .accessing table field =>
    (selectFrom (·.accesses table none) (ks.filterMap v)).filter (·.accesses table field)
  | .isBuilt => !ks.isEmpty
  | .location => root

/-- A store lists these keys, and whether from a document or from the cache, what loading gives for a
key is as said. -/
def Presents (s : Store) (ks : List String) (P : String → Option Shard → Prop) : Prop :=
  s.keys = .ok ks ∧ ∃ m v, s.Shows m v ∧ ∀ k, P k (m k) ∧ P k (v k)

/-- An answer when the cache has lost some shards before the question comes. As an answer loads no
shard twice, it does not matter at which moment they were lost. -/
def answerLosing (losses : Question → Store → List String) (q : Question) :
    StateM Store q.Answer := do
  evictEach (losses q (← get))
  answer q

theorem answerLosing_nothing : answerLosing (fun _ _ => []) = answer := rfl

section Answer

variable {s : Store} {ks : List String} {P : String → Option Shard → Prop}

theorem evictEach_presents (presents : s.Presents ks P) (keys : List String) :
    ∃ cache, evictEach keys s = ((), { s with cache }) ∧ Presents { s with cache } ks P := by
  rcases presents with ⟨listed, m, v, shows, shown⟩
  rcases evictEach_shows shows keys with ⟨cache, evicted, kept⟩
  refine ⟨cache, evicted, listed, m, uncovered m v keys, kept, fun k => ⟨(shown k).1, ?_⟩⟩
  rw [uncovered]
  split
  · exact (shown k).1
  · exact (shown k).2

theorem loadPath_presents (presents : s.Presents ks P) (file : String) :
    ∃ (v : String → Option Shard) (t : Store), (∀ k, P k (v k)) ∧
      loadPath file s = (v (shardKey file), t) ∧ t.Presents ks P := by
  rcases presents with ⟨listed, m, v, shows, shown⟩
  rcases load_shown shows (plain_shardKey file) (shardKey_ne_empty file) with ⟨cache, loaded, kept⟩
  exact ⟨v, _, fun k => (shown k).2, loaded, listed, m, v, kept, shown⟩

theorem sweep_presents (presents : s.Presents ks P) :
    ∃ (v : String → Option Shard) (t : Store), (∀ k, P k (v k)) ∧
      sweep s = (.ok (ks.filterMap v), t) ∧ t.Presents ks P := by
  rcases presents with ⟨listed, m, v, shows, shown⟩
  rcases sweep_shows shows listed with ⟨cache, swept, kept⟩
  exact ⟨v, _, fun k => (shown k).2, swept, listed, m, m, kept, fun k => ⟨(shown k).1, (shown k).1⟩⟩

theorem answer_presents (presents : s.Presents ks P) (q : Question) :
    ∃ v, (∀ k, P k (v k)) ∧ (answer q s).1 = answersOf ks v s.root q ∧
      (answer q s).2.Presents ks P := by
  have some : ∃ v : String → Option Shard, ∀ k, P k (v k) := by
    rcases presents with ⟨-, _, v, -, shown⟩
    exact ⟨v, fun k => (shown k).2⟩
  cases q with
  | function id =>
    rw [answer, function]
    cases leads : FunctionNode.fileOfId id with
    | none =>
      rcases some with ⟨v, shown⟩
      refine ⟨v, shown, ?_, presents⟩
      simp only [answersOf, leads]
      rfl
    | some file =>
      rcases loadPath_presents presents file with ⟨v, t, shown, loaded, kept⟩
      simp only [run_bind, loaded, answersOf, leads]
      exact ⟨v, shown, rfl, kept⟩
  | inFile file =>
    rcases loadPath_presents presents file with ⟨v, t, shown, loaded, kept⟩
    rw [answer, run_bind, loaded]
    exact ⟨v, shown, rfl, kept⟩
  | named name =>
    rcases sweep_presents presents with ⟨v, t, shown, swept, kept⟩
    rw [answer, run_bind, ofSweep, run_bind, swept]
    exact ⟨v, shown, rfl, kept⟩
  | accessing table field =>
    rcases sweep_presents presents with ⟨v, t, shown, swept, kept⟩
    rw [answer, run_bind, functionsByTable, ofSweep, run_bind, swept]
    exact ⟨v, shown, rfl, kept⟩
  | isBuilt =>
    rcases some with ⟨v, shown⟩
    rw [answer, run_bind, run_get, isAvailable, presents.1]
    exact ⟨v, shown, rfl, presents⟩
  | location =>
    rcases some with ⟨v, shown⟩
    exact ⟨v, shown, rfl, presents⟩

theorem answerLosing_presents (presents : s.Presents ks P)
    (losses : Question → Store → List String) (q : Question) :
    ∃ v, (∀ k, P k (v k)) ∧ (answerLosing losses q s).1 = answersOf ks v s.root q ∧
      (answerLosing losses q s).2.Presents ks P := by
  rcases evictEach_presents presents (losses q s) with ⟨cache, evicted, kept⟩
  rw [answerLosing, run_bind, run_get, run_bind, evicted]
  exact answer_presents kept q

def asked (losses : Question → Store → List String) (s : Store) (questions : List Question) :
    Store :=
  questions.foldl (fun s q => (answerLosing losses q s).2) s

theorem asked_presents (presents : s.Presents ks P) (losses : Question → Store → List String)
    (questions : List Question) : (asked losses s questions).Presents ks P := by
  induction questions generalizing s with
  | nil => exact presents
  | cons q rest ih =>
    rcases answerLosing_presents presents losses q with ⟨-, -, -, kept⟩
    exact ih kept

end Answer

/-! ### Recalled answers -/

/-- Whether from a document or from the cache, what loading gives for each key is recalled from what
was kept for it. -/
def Recalls (kept found : String → Option Shard) : Prop :=
  ∀ k, Option.Rel Shard.Recalled (kept k) (found k)

theorem recalls_refl (kept : String → Option Shard) : Recalls kept kept := by
  intro k
  cases kept k with
  | none => exact .none
  | some shard => exact .some shard.recalled_refl

theorem recalls_update {kept found : String → Option Shard} (recalls : Recalls kept found)
    {shard shard' : Shard} (recalled : shard.Recalled shard') (key : String) :
    Recalls (Function.update kept key (some shard)) (Function.update found key (some shard')) := by
  intro k
  by_cases own : k = key
  · rw [own, Function.update_self, Function.update_self]
    exact .some recalled
  · rw [Function.update_of_ne own, Function.update_of_ne own]
    exact recalls k

section Recalled

variable {shards shards' : List Shard} {fs fs' : List FunctionNode}

theorem recalled_find? {p : FunctionNode → Bool} (blind : ∀ f f', f.Recalled f' → p f = p f')
    (recalled : List.Forall₂ FunctionNode.Recalled fs fs') :
    Option.Rel FunctionNode.Recalled (fs.find? p) (fs'.find? p) := by
  induction recalled with
  | nil => exact .none
  | @cons f f' _ _ own _ ih =>
    rw [List.find?_cons, List.find?_cons, ← blind f f' own]
    cases p f with
    | true => exact .some own
    | false => exact ih

theorem recalled_filter {p : FunctionNode → Bool} (blind : ∀ f f', f.Recalled f' → p f = p f')
    (recalled : List.Forall₂ FunctionNode.Recalled fs fs') :
    List.Forall₂ FunctionNode.Recalled (fs.filter p) (fs'.filter p) :=
  List.rel_filter (fun f f' own => by simp only [blind f f' own]) recalled

theorem recalled_selectFrom {p : FunctionNode → Bool}
    (blind : ∀ f f', f.Recalled f' → p f = p f')
    (recalled : List.Forall₂ Shard.Recalled shards shards') :
    List.Forall₂ FunctionNode.Recalled (selectFrom p shards) (selectFrom p shards') := by
  have functions : List.Forall₂ FunctionNode.Recalled (shards.flatMap (·.functions))
      (shards'.flatMap (·.functions)) :=
    List.rel_flatMap recalled fun _ _ own => own.2
  have order : ∀ f f' g g', FunctionNode.Recalled f f' → FunctionNode.Recalled g g' →
      FunctionNode.idLe f g = FunctionNode.idLe f' g' := by
    intro f f' g g' first second
    rw [first.1, second.1]
    rfl
  exact forall₂_mergeSort order (recalled_filter blind functions)

variable {kept found : String → Option Shard}

theorem answersOf_recalled (recalls : Recalls kept found) (ks : List String) (root : String)
    (q : Question) : q.Recalled (answersOf ks kept root q) (answersOf ks found root q) := by
  have listed : List.Forall₂ Shard.Recalled (ks.filterMap kept) (ks.filterMap found) :=
    List.rel_filterMap (fun k k' (same : k = k') => same ▸ recalls k)
      (List.forall₂_same.mpr fun _ _ => rfl)
  have touching : ∀ table field (f f' : FunctionNode), f.Recalled f' →
      f.accesses table field = f'.accesses table field := by
    intro table field f f' own
    rw [own.1]
    rfl
  cases q with
  | function id =>
    simp only [answersOf]
    cases FunctionNode.fileOfId id with
    | none => exact .none
    | some file =>
      have loaded := recalls (shardKey file)
      simp only [Option.bind_some]
      generalize kept (shardKey file) = own, found (shardKey file) = own' at loaded ⊢
      cases loaded with
      | none => exact .none
      | some own =>
        refine recalled_find? (fun f f' same => ?_) own.2
        rw [same.1]
  | inFile file =>
    have loaded := recalls (shardKey file)
    simp only [answersOf]
    generalize kept (shardKey file) = own, found (shardKey file) = own' at loaded ⊢
    cases loaded with
    | none => exact .nil
    | some own => exact own.2
  | named name =>
    refine recalled_selectFrom (fun f f' same => ?_) listed
    rw [same.1]
    rfl
  | accessing table field =>
    exact recalled_filter (touching table field) (recalled_selectFrom (touching table none) listed)
  | isBuilt | location => rfl

end Recalled

/-! ### Saving shards -/

inductive Saves : List Shard → Store → Store → Prop
  | nil {s : Store} : Saves [] s s
  | cons {shard : Shard} {rest : List Shard} {key : String} {s s' t : Store} :
    save shard s = (.ok key, s') → Saves rest s' t → Saves (shard :: rest) s t

section Saves

variable {s t : Store} {shards : List Shard}

theorem saves_shows (saves : Saves shards s t) (finite : ∀ shard ∈ shards, shard.Finite)
    {o m v : String → Option Shard} (shows : s.Shows m v) (documents : Recalls o m)
    (shown : Recalls o v) :
    ∃ m' v', t.Shows m' v' ∧ Recalls (saved o shards) m' ∧ Recalls (saved o shards) v' := by
  induction saves generalizing o m v with
  | nil => exact ⟨m, v, shows, documents, shown⟩
  | @cons shard rest key s s' t outcome _ ih =>
    rcases Shard.reread?_of_finite (finite shard (List.mem_cons_self ..)) with ⟨read, reread⟩
    rcases save_shows shows reread outcome with ⟨kept, which, shows'⟩
    have written : shard.Recalled read := Shard.recalled_of_reread reread
    have loaded : shard.Recalled kept := by
      rcases which with rfl | rfl
      · exact kept.recalled_refl
      · exact written
    exact ih (fun other later => finite other (List.mem_cons_of_mem shard later)) shows'
      (recalls_update documents written shard.key) (recalls_update shown loaded shard.key)

theorem saves_holds (saves : Saves shards s t) (legible : ∀ shard ∈ shards, shard.Legible)
    {o : String → Option Shard} (holds : s.Holds o) : t.Holds (saved o shards) := by
  induction saves generalizing o with
  | nil => exact holds
  | @cons shard rest key s s' t outcome _ ih =>
    exact ih (fun other later => legible other (List.mem_cons_of_mem shard later))
      (save_holds holds (legible shard (List.mem_cons_self ..)) outcome)

end Saves

end Store

end DataReach
