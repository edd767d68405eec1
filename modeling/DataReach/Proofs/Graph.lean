import DataReach.Distinct
import DataReach.Graph
import Mathlib.Data.List.Induction
/-!
A graph after any insertions. The function that came last under an id is the one it has. The ids of
a file stand in the order in which they first came under it, and stay there when their function has
come under another file since.
-/

namespace DataReach

namespace CallGraph

theorem function?_insert (g : CallGraph) (f : FunctionNode) (id : String) :
    (g.insert f).function? id = if id = f.id then some f else g.function? id :=
  Dict.get?_insert ..

def idsUnder (file : String) (functions : List FunctionNode) : List String :=
  distinct ((functions.filter (·.file == file)).map (·.id))

theorem idsUnder_append (file : String) (functions : List FunctionNode) (f : FunctionNode) :
    idsUnder file (functions ++ [f]) =
      if file = f.file ∧ f.id ∉ idsUnder file functions then idsUnder file functions ++ [f.id]
      else idsUnder file functions := by
  rw [idsUnder, idsUnder, List.filter_append, List.map_append]
  generalize (functions.filter (·.file == file)).map (·.id) = ids
  by_cases own : file = f.file
  · by_cases old : f.id ∈ ids
    · simp [own, distinct_append_old old, mem_distinct, old]
    · simp [own, distinct_append_new old, mem_distinct, old]
  · simp [own, Ne.symm own]

theorem function?_foldl (functions : List FunctionNode) (id : String) :
    (functions.foldl insert empty).function? id = functions.reverse.find? (·.id == id) := by
  induction functions using List.reverseRecOn with
  | nil => rfl
  | append_singleton front last ih =>
    rw [List.foldl_append, List.foldl_cons, List.foldl_nil, function?_insert, ih,
      List.reverse_append, List.reverse_singleton, List.singleton_append, List.find?_cons]
    by_cases own : last.id = id
    · simp [own]
    · have other : (last.id == id) = false := beq_false_of_ne own
      rw [other, if_neg (Ne.symm own)]

theorem byFile_foldl (functions : List FunctionNode) (file : String) :
    ((functions.foldl insert empty).byFile.get? file).getD [] = idsUnder file functions := by
  induction functions using List.reverseRecOn with
  | nil => rfl
  | append_singleton front last ih =>
    rw [List.foldl_append, List.foldl_cons, List.foldl_nil, insert, Dict.get?_alter,
      idsUnder_append]
    by_cases own : file = last.file
    · rw [if_pos own, Option.getD_some, ← own, ih]
      by_cases old : last.id ∈ idsUnder file front <;> simp [old]
    · rw [if_neg own, ih]
      simp [own]

theorem mem_idsUnder {file id : String} {functions : List FunctionNode} :
    id ∈ idsUnder file functions ↔ ∃ n ∈ functions, n.id = id ∧ n.file = file := by
  simp only [idsUnder, mem_distinct, List.mem_map, List.mem_filter, beq_iff_eq]
  constructor
  · rintro ⟨n, ⟨member, own⟩, same⟩
    exact ⟨n, member, same, own⟩
  · rintro ⟨n, member, same, own⟩
    exact ⟨n, ⟨member, own⟩, same⟩

theorem map_id_filterMap (g : CallGraph) (ids : List String) :
    (ids.filterMap g.function?).map (·.id) = ids.filter fun id => (g.function? id).isSome := by
  induction ids with
  | nil => rfl
  | cons id rest ih =>
    cases found : g.function? id with
    | none => simp [found, ih]
    | some f => simp [found, ih, id_of_function? found]

/-- What a graph has by id and by file when these functions came into it, in this order. -/
structure Indexed (functions : List FunctionNode) (g : CallGraph) : Prop where
  latest : ∀ id, g.function? id = functions.reverse.find? (·.id == id)
  in_order : ∀ file, g.inFile file = (idsUnder file functions).filterMap g.function?

theorem indexed_foldl (functions : List FunctionNode) :
    Indexed functions (functions.foldl insert empty) where
  latest := function?_foldl functions
  in_order := by
    intro file
    rw [inFile, byFile_foldl]

namespace Indexed

variable {functions : List FunctionNode} {g : CallGraph}

theorem mem_of_function? (indexed : Indexed functions g) {id : String} {f : FunctionNode}
    (found : g.function? id = some f) : f ∈ functions := by
  rw [indexed.latest] at found
  exact List.mem_reverse.mp (List.mem_of_find?_eq_some found)

theorem nodup_inFile (indexed : Indexed functions g) (file : String) :
    ((g.inFile file).map (·.id)).Nodup := by
  rw [indexed.in_order, map_id_filterMap]
  exact (nodup_distinct _).filter _

theorem mem_inFile (indexed : Indexed functions g) {file : String} {f : FunctionNode} :
    f ∈ g.inFile file ↔
      g.function? f.id = some f ∧ ∃ n ∈ functions, n.id = f.id ∧ n.file = file := by
  rw [indexed.in_order, List.mem_filterMap, ← mem_idsUnder]
  constructor
  · rintro ⟨id, member, found⟩
    obtain rfl := id_of_function? found
    exact ⟨found, member⟩
  · rintro ⟨found, member⟩
    exact ⟨f.id, member, found⟩

theorem exact_iff (indexed : Indexed functions g) (file : String) :
    (∀ f, f ∈ g.inFile file ↔ g.function? f.id = some f ∧ f.file = file) ↔
      ∀ n ∈ functions, n.file = file → ∀ f, g.function? n.id = some f → f.file = file := by
  constructor
  · intro exact n member under f found
    have same : f.id = n.id := id_of_function? found
    -- The id of `n` stays under the file, so what it stands for now is listed there.
    have listed : f ∈ g.inFile file :=
      indexed.mem_inFile.mpr ⟨same ▸ found, n, member, same.symm, under⟩
    exact ((exact f).mp listed).2
  · intro still f
    rw [indexed.mem_inFile]
    constructor
    · rintro ⟨found, n, member, same, under⟩
      exact ⟨found, still n member under f (same ▸ found)⟩
    · rintro ⟨found, own⟩
      exact ⟨found, f, indexed.mem_of_function? found, rfl, own⟩

end Indexed

/-- A file lists, once each, the functions that ever came under it, as they are now. These are the
functions of the file just when none of them has come under another file since. -/
structure FilesKept (functions : List FunctionNode) (g : CallGraph) : Prop
    extends Indexed functions g where
  once : ∀ file, ((g.inFile file).map (·.id)).Nodup
  listed_iff : ∀ file f, f ∈ g.inFile file ↔
    g.function? f.id = some f ∧ ∃ n ∈ functions, n.id = f.id ∧ n.file = file
  files_exact_iff : ∀ file, (∀ f, f ∈ g.inFile file ↔ g.function? f.id = some f ∧ f.file = file) ↔
    ∀ n ∈ functions, n.file = file → ∀ f, g.function? n.id = some f → f.file = file

/-- Whatever is put into a graph, and in whatever order. -/
theorem files_kept (shards : List Shard) (functions : List FunctionNode) :
    FilesKept (shards.flatMap (·.functions) ++ functions)
      (functions.foldl insert (ofShards shards)) := by
  have indexed := indexed_foldl (shards.flatMap (·.functions) ++ functions)
  rw [List.foldl_append] at indexed
  exact ⟨indexed, indexed.nodup_inFile, fun _ _ => indexed.mem_inFile, indexed.exact_iff⟩

def runIn (file : String) : FunctionNode :=
  ⟨"a.py:run:1", "run", "run", file, 1, 9, true, false, [], [], []⟩

theorem listed_under_old_file :
    ¬∀ file f, f ∈ ([runIn "a.py", runIn "b.py"].foldl insert empty).inFile file ↔
      ([runIn "a.py", runIn "b.py"].foldl insert empty).function? f.id = some f ∧
        f.file = file := by
  intro exact
  have listed : runIn "b.py" ∈ ([runIn "a.py", runIn "b.py"].foldl insert empty).inFile "a.py" :=
    List.mem_singleton.mpr rfl
  have file : "b.py" = "a.py" := ((exact "a.py" (runIn "b.py")).mp listed).2
  exact absurd file (by decide)

end CallGraph

end DataReach
