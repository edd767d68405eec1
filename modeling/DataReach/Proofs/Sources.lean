import DataReach.Proofs.Analyses
import DataReach.Proofs.Converse
import DataReach.Proofs.FunctionId
import DataReach.Proofs.Reach.Inverse
import DataReach.Proofs.Reproducible
import DataReach.Proofs.Store.Answers
/-!
A store and a graph in memory as sources of answers. The one finds a function through the file that
its id names and visits all shards in the order of their keys; the other has the functions by id and
the ids by file. On shards whose functions are in their places they answer alike.
-/

namespace DataReach

/-- Shards with functions in their places, which have keys of their own and names without colons. -/
structure Sources (shards : List Shard) : Prop where
  some : shards.flatMap (·.functions) ≠ []
  named : ∀ shard ∈ shards, shard.file ≠ ""
  apart : (shards.map (·.key)).Nodup
  placed : ∀ shard ∈ shards, shard.Placed
  plain : ∀ shard ∈ shards, ∀ f ∈ shard.functions, ':' ∉ f.name.toList

def Known (shards : List Shard) (file : String) : Prop :=
  ∀ shard ∈ shards, shard.key = shardKey file → shard.file = file

namespace Sources

variable {shards : List Shard} {shard : Shard} {f : FunctionNode}

theorem fileOfId (sources : Sources shards) (there : shard ∈ shards) (own : f ∈ shard.functions) :
    FunctionNode.fileOfId f.id = Option.some shard.file := by
  rw [(sources.placed shard there).id f own]
  exact FunctionNode.fileOfId_makeId (sources.named shard there) (sources.plain shard there f own) _

theorem once (sources : Sources shards) : ((shards.flatMap (·.functions)).map (·.id)).Nodup := by
  rw [List.map_flatMap, List.nodup_flatMap]
  refine ⟨fun shard there => (sources.placed shard there).once, ?_⟩
  have pairs := List.pairwise_map.mp sources.apart
  refine pairs.imp_of_mem fun {a b} first second apart => ?_
  intro id here also
  rcases List.mem_map.mp here with ⟨f, own, rfl⟩
  rcases List.mem_map.mp also with ⟨g, other, same⟩
  have files := sources.fileOfId second other
  rw [same, sources.fileOfId first own] at files
  exact apart (congrArg shardKey (Option.some.inj files))

end Sources

/-! ### The graph in memory -/

namespace CallGraph

theorem inFile_ofShards {shards : List Shard}
    (once : ((shards.flatMap (·.functions)).map (·.id)).Nodup) (file : String) :
    (ofShards shards).inFile file =
      (shards.flatMap (·.functions)).filter (·.file == file) := by
  have under : (((shards.flatMap (·.functions)).filter (·.file == file)).map (·.id)).Nodup :=
    (List.filter_sublist.map _).nodup once
  rw [ofShards, (indexed_foldl _).in_order, idsUnder, distinct_of_nodup under, List.filterMap_map]
  refine (List.filterMap_congr fun f member => ?_).trans (List.filterMap_some ..)
  exact (function?_ofShards once).mpr (List.mem_filter.mp member).1

theorem select_ascending (g : CallGraph) (p : FunctionNode → Bool) :
    (g.select p).Pairwise fun a b => a.id < b.id := by
  have keys : g.functions.values.map (·.id) = g.functions.keys := by
    rw [Dict.values, Dict.keys, List.map_map]
    exact List.map_congr_left g.keyed
  have once : (g.functions.values.map (·.id)).Nodup := keys ▸ g.once
  exact mergeSort_ascending FunctionNode.id _ (once.sublist (List.filter_sublist.map _))

end CallGraph

theorem Sources.built {shards : List Shard} (sources : Sources shards) :
    (CallGraph.ofShards shards).answers .isBuilt = true := by
  rcases List.exists_mem_of_ne_nil _ sources.some with ⟨f, member⟩
  have present := (CallGraph.function?_ofShards sources.once).mpr member
  have some : (CallGraph.ofShards shards).functions.isEmpty = false :=
    List.isEmpty_eq_false_iff_exists_mem.mpr ⟨_, Dict.mem_of_get? present⟩
  rw [CallGraph.answers, some]
  rfl

/-! ### The store -/

namespace Store

variable {shards : List Shard}

theorem filterMap_lookup (once : (shards.map (·.key)).Nodup) {ks : List String}
    (apart : ks.Nodup) (listed : ∀ k, k ∈ ks ↔ lookup shards k ≠ none) :
    (ks.filterMap (lookup shards)).Perm shards := by
  refine (List.perm_ext_iff_of_nodup ?_ (once.of_map _)).mpr fun shard => ?_
  · refine apart.filterMap fun a b shard first second => ?_
    rw [← ((lookup_eq_some once).mp first).2, ← ((lookup_eq_some once).mp second).2]
  · rw [List.mem_filterMap]
    constructor
    · rintro ⟨k, -, found⟩
      exact ((lookup_eq_some once).mp found).1
    · intro there
      have found := (lookup_eq_some once).mpr ⟨there, rfl⟩
      exact ⟨shard.key, (listed _).mpr (found ▸ nofun), found⟩

theorem functions_lookup {file : String} (once : (shards.map (·.key)).Nodup)
    (placed : ∀ shard ∈ shards, shard.Placed) (known : Known shards file) :
    ((lookup shards (shardKey file)).map (·.functions)).getD [] =
      (shards.flatMap (·.functions)).filter (·.file == file) := by
  induction shards with
  | nil => rfl
  | cons first rest ih =>
    rcases List.nodup_cons.mp once with ⟨fresh, once⟩
    have files := (placed first (List.mem_cons_self ..)).file
    have others := ih once (fun shard later => placed shard (List.mem_cons_of_mem first later))
      fun shard later => known shard (List.mem_cons_of_mem first later)
    rw [List.flatMap_cons, List.filter_append, ← others, lookup_cons]
    by_cases own : first.key = shardKey file
    · have same : first.file = file := known first (List.mem_cons_self ..) own
      have all : first.functions.filter (·.file == file) = first.functions := by
        refine List.filter_eq_self.mpr fun f member => ?_
        rw [files f member, same, beq_self_eq_true]
      rw [if_pos own, all, lookup_fresh (own ▸ fresh)]
      simp
    · have none : first.functions.filter (·.file == file) = [] := by
        refine List.filter_eq_nil_iff.mpr fun f member equal => own ?_
        rw [files f member] at equal
        rw [Shard.key, eq_of_beq equal]
      rw [if_neg own, none, List.nil_append]

section Agreement

variable {ks : List String}

theorem function_agrees (sources : Sources shards) (root id : String) :
    answersOf ks (lookup shards) root (.function id) =
      (CallGraph.ofShards shards).function? id := by
  have found : ∀ f : FunctionNode, f.id = id →
      ((CallGraph.ofShards shards).function? id = some f ↔ f ∈ shards.flatMap (·.functions)) := by
    rintro f rfl
    exact CallGraph.function?_ofShards sources.once
  apply Option.ext
  intro f
  constructor
  · intro answered
    rcases Option.bind_eq_some_iff.mp answered with ⟨file, -, loaded⟩
    rcases Option.bind_eq_some_iff.mp loaded with ⟨shard, stored, named⟩
    have there := ((lookup_eq_some sources.apart).mp stored).1
    have same : f.id = id := by simpa using List.find?_some named
    exact (found f same).mpr (List.mem_flatMap.mpr ⟨shard, there, List.mem_of_find?_eq_some named⟩)
  · intro answered
    have same := CallGraph.id_of_function? answered
    rcases List.mem_flatMap.mp ((found f same).mp answered) with ⟨shard, there, own⟩
    have stored := (lookup_eq_some sources.apart).mpr ⟨there, rfl⟩
    subst same
    simp only [answersOf]
    rw [sources.fileOfId there own, Option.bind_some]
    exact Option.bind_eq_some_iff.mpr
      ⟨shard, stored, Shard.function?_of_placed (sources.placed shard there) own⟩

theorem select_agrees (sources : Sources shards) {visited : List Shard}
    (perm : visited.Perm shards) (p : FunctionNode → Bool) :
    selectFrom p visited = (CallGraph.ofShards shards).select p := by
  have same : (visited.flatMap (·.functions)).Perm (shards.flatMap (·.functions)) :=
    perm.flatMap_right _
  have once := (same.map (·.id)).nodup_iff.mpr sources.once
  have ascending : (selectFrom p visited).Pairwise fun a b => a.id < b.id :=
    mergeSort_ascending FunctionNode.id _ (once.sublist (List.filter_sublist.map _))
  apply ascending.eq_of_mem_iff (CallGraph.select_ascending ..)
  intro f
  rw [selectFrom, List.mem_mergeSort, List.mem_filter, CallGraph.mem_select,
    CallGraph.function?_ofShards sources.once, same.mem_iff]

theorem accessing_agrees (sources : Sources shards) {visited : List Shard}
    (perm : visited.Perm shards) (table : String) (field : Option String) :
    (selectFrom (·.accesses table none) visited).filter (·.accesses table field) =
      (CallGraph.ofShards shards).select (·.accesses table field) := by
  have wider : ∀ f : FunctionNode, f.accesses table field = true →
      f.accesses table none = true := by
    intro f accesses
    rcases List.any_eq_true.mp accesses with ⟨a, own, same⟩
    refine List.any_eq_true.mpr ⟨a, own, ?_⟩
    rw [DataAccess.matches, (Bool.and_eq_true_iff.mp same).1]
    rfl
  rw [select_agrees sources perm]
  apply ((CallGraph.select_ascending ..).filter _).eq_of_mem_iff (CallGraph.select_ascending ..)
  intro f
  rw [List.mem_filter, CallGraph.mem_select, CallGraph.mem_select, and_assoc,
    and_iff_right_of_imp (wider f)]

theorem answers_agree (sources : Sources shards) (apart : ks.Nodup)
    (listed : ∀ k, k ∈ ks ↔ lookup shards k ≠ none) (root : String) {q : Question}
    (fair : q.Fair (Known shards)) :
    answersOf ks (lookup shards) root q = (CallGraph.ofShards shards).answers q := by
  have visited := filterMap_lookup sources.apart apart listed
  cases q with
  | function id => exact function_agrees sources root id
  | inFile file =>
    exact (functions_lookup sources.apart sources.placed fair).trans
      (CallGraph.inFile_ofShards sources.once file).symm
  | named name => exact select_agrees sources visited _
  | accessing table field => exact accessing_agrees sources visited table field
  | isBuilt =>
    rcases List.exists_mem_of_ne_nil _ sources.some with ⟨f, member⟩
    rcases List.mem_flatMap.mp member with ⟨shard, there, -⟩
    have stored := (lookup_eq_some sources.apart).mpr ⟨there, rfl⟩
    have some : ks.isEmpty = false :=
      List.isEmpty_eq_false_iff_exists_mem.mpr ⟨_, (listed shard.key).mpr (stored ▸ nofun)⟩
    rw [sources.built, answersOf, some]
    rfl
  | location => cases fair

theorem sound_answers (sources : Sources shards) (q : Question) :
    q.Sound ((CallGraph.ofShards shards).answers q) := by
  cases q with
  | isBuilt => exact sources.built
  | _ => trivial

theorem recalls_answers (sources : Sources shards) (apart : ks.Nodup)
    (listed : ∀ k, k ∈ ks ↔ lookup shards k ≠ none) (losses : Question → Store → List String)
    {s : Store} (presents : s.Presents ks fun k => Option.Rel Shard.Recalled (lookup shards k))
    {q : Question} (fair : q.Fair (Known shards)) :
    q.Recalled ((CallGraph.ofShards shards).answers q) (answerLosing losses q s).1 := by
  rcases answerLosing_presents presents losses q with ⟨v, recalls, answered, -⟩
  rw [answered, ← answers_agree sources apart listed s.root fair]
  exact answersOf_recalled recalls ks s.root q

theorem gives_answers (sources : Sources shards) (apart : ks.Nodup)
    (listed : ∀ k, k ∈ ks ↔ lookup shards k ≠ none) (losses : Question → Store → List String) :
    Inquiry.Gives (Known shards) (answerLosing losses)
      (·.Presents ks fun k => Option.Rel Shard.Recalled (lookup shards k))
      (CallGraph.ofShards shards).answers := by
  intro q s presents fair
  have same := Question.plain_of_recalled
    (recalls_answers sources apart listed losses presents fair)
  rcases answerLosing_presents presents losses q with ⟨-, -, -, kept⟩
  exact ⟨Question.sound_of_plain same (sound_answers sources q), same, kept⟩

end Agreement

theorem presents_of_shows {t : Store} {m v : String → Option Shard} (shows : t.Shows m v)
    (keys : ∀ k, m k ≠ none ↔ lookup shards k ≠ none) {P : String → Option Shard → Prop}
    (shown : ∀ k, P k (m k) ∧ P k (v k)) :
    ∃ ks : List String, ks.Nodup ∧ (∀ k, k ∈ ks ↔ lookup shards k ≠ none) ∧ t.Presents ks P := by
  rcases shows.listed with ⟨ks, listed, ascending, members⟩
  refine ⟨ks, ascending.imp fun less => String.ne_of_lt less, fun k => ?_, listed, m, v, shows,
    shown⟩
  rw [members, keys]

/-- Shards that were saved and a graph of the same shards answer alike, whatever the store was asked
before and whenever the cache loses shards. The functions in an answer are those of the graph, in the
same order, and each of their calls is as it was, or has the confidence that its numeral reads as. If
all confidences are read back as they were, the answers are the same. No analysis sees a
difference. -/
theorem sources_agree {s t : Store} (listed : s.keys = .ok []) (uncached : s.cache.shards = [])
    (saves : Saves shards s t) (sources : Sources shards)
    (finite : ∀ shard ∈ shards, shard.Finite) (losses : Question → Store → List String)
    (earlier : List Question) :
    (∀ q : Question, q.Fair (Known shards) →
        q.Recalled ((CallGraph.ofShards shards).answers q)
            (answerLosing losses q (asked losses t earlier)).1 ∧
          ((∀ shard ∈ shards, shard.Legible) →
            (answerLosing losses q (asked losses t earlier)).1 =
              (CallGraph.ofShards shards).answers q)) ∧
      ∀ a : Analysis, (∀ file ∈ a.files, Known shards file) →
        (a.inquiry.run (answerLosing losses) (asked losses t earlier)).1 =
          a.inquiry.eval (CallGraph.ofShards shards).answers := by
  have start := holds_fresh listed uncached
  have stored : saved (fun _ => none) shards = lookup shards := by
    funext k
    rw [saved_of_nodup sources.apart, Option.or_none]
  rcases saves_shows saves finite start (recalls_refl _) (recalls_refl _) with
    ⟨m, v, shows, documents, shown⟩
  rw [stored] at documents shown
  have keys : ∀ k, m k ≠ none ↔ lookup shards k ≠ none := by
    intro k
    have document := documents k
    generalize lookup shards k = kept, m k = found at document ⊢
    cases document <;> simp
  rcases presents_of_shows shows keys fun k => ⟨documents k, shown k⟩ with
    ⟨ks, apart, members, presents⟩
  have later := asked_presents presents losses earlier
  refine ⟨fun q fair => ⟨recalls_answers sources apart members losses later fair,
    fun legible => ?_⟩, fun a fair => ?_⟩
  · have holds := saves_holds saves legible start
    rw [stored] at holds
    rcases presents_of_shows (P := fun k found => found = lookup shards k) holds
      (fun _ => Iff.rfl) (fun _ => ⟨rfl, rfl⟩) with ⟨ks, apart, members, presents⟩
    rcases answerLosing_presents (asked_presents presents losses earlier) losses q with
      ⟨v, same, answered, -⟩
    rw [answered, funext same, answers_agree sources apart members _ fair]
  · exact Inquiry.run_eq_eval (a.blind fair) (gives_answers sources apart members losses)
      (fun q _ => sound_answers sources q) later

/-! ### Two shards -/

theorem saves_cons {s t : Store} {shard : Shard} (free : (save shard s).1.isOk = true)
    (later : Saves shards (save shard s).2 t) : Saves (shard :: shards) s t := by
  rcases outcome : save shard s with ⟨_ | key, s'⟩
  · rw [outcome] at free
    cases free
  · rw [outcome] at later
    exact .cons outcome later

def sureShard (confidence : Float) : Shard where
  file := "a.py"
  functions := [{
    id := "a.py:f:1", name := "f", qualifiedName := "f", file := "a.py", startLine := 1, endLine := 9
    isEntryPoint := true, isDataAccessor := true
    calls := [⟨"g", false, none, confidence, 3⟩]
    calledBy := [], dataAccess := [⟨"users", .read, 4, ["email"]⟩] }]

def sureShards (confidence : Float) : List Shard := [sureShard confidence, callerShard]

theorem sources_sureShards (confidence : Float) : Sources (sureShards confidence) where
  some := nofun
  named := by simp [sureShards, sureShard, callerShard]
  apart := by
    change [shardKey "a.py", shardKey "b.py"].Nodup
    decide +kernel
  placed := by
    have ids : "a.py:f:1" = FunctionNode.makeId "a.py" "f" 1 ∧
        "b.py:g:1" = FunctionNode.makeId "b.py" "g" 1 := by
      decide +kernel
    intro shard there
    simp only [sureShards, List.mem_cons, List.not_mem_nil, or_false] at there
    rcases there with rfl | rfl
    · exact ⟨by simp [sureShard], by simpa [sureShard] using ids.1, List.nodup_singleton _⟩
    · exact ⟨by simp [callerShard], by simpa [callerShard] using ids.2, List.nodup_singleton _⟩
  plain := by simp [sureShards, sureShard, callerShard]

theorem saves_sureShards {confidence : Float}
    (free : (save (sureShard confidence) blankStore).1.isOk = true ∧
      (save callerShard (save (sureShard confidence) blankStore).2).1.isOk = true) :
    Saves (sureShards confidence) blankStore
      (save callerShard (save (sureShard confidence) blankStore).2).2 :=
  saves_cons free.1 (saves_cons free.2 .nil)

theorem sources_agree_sure :
    blankStore.keys = .ok [] ∧ Sources (sureShards 0.75) ∧
      (∀ shard ∈ sureShards 0.75, shard.Finite) ∧ (∀ shard ∈ sureShards 0.75, shard.Legible) ∧
      ∃ t, Saves (sureShards 0.75) blankStore t ∧
        (answer (.function "a.py:f:1") (answer (.named "g") t).2).1 =
          (CallGraph.ofShards (sureShards 0.75)).answers (.function "a.py:f:1") ∧
        (∀ file ∈ (Analysis.reachAt default {} "a.py" 4).files, Known (sureShards 0.75) file) ∧
        ((Analysis.reachAt default {} "a.py" 4).inquiry.run answer t).1 =
          (Analysis.reachAt default {} "a.py" 4).inquiry.eval
            (CallGraph.ofShards (sureShards 0.75)).answers := by
  have listed : blankStore.keys = .ok [] := by decide +kernel
  have finite : ∀ shard ∈ sureShards 0.75, shard.Finite := by decide +kernel
  have legible : ∀ shard ∈ sureShards 0.75, shard.Legible := by
    have same : ∀ shard ∈ sureShards 0.75, ∀ f ∈ shard.functions, ∀ e ∈ f.calls,
        (Json.float e.confidence).reread.float? = some e.confidence := by
      decide +kernel
    exact same
  have known : ∀ file ∈ (Analysis.reachAt default {} "a.py" 4).files,
      Known (sureShards 0.75) file := by
    have apart : shardKey "b.py" ≠ shardKey "a.py" := by decide +kernel
    simpa [Analysis.files, Known, sureShards, sureShard, callerShard, Shard.key] using apart
  obtain ⟨t, saves⟩ : ∃ t, Saves (sureShards 0.75) blankStore t :=
    ⟨_, saves_sureShards (by decide +kernel)⟩
  have agree := sources_agree listed rfl saves (sources_sureShards 0.75) finite fun _ _ => []
  rw [answerLosing_nothing] at agree
  exact ⟨listed, sources_sureShards 0.75, finite, legible, t, saves,
    ((agree [.named "g"]).1 (.function "a.py:f:1") trivial).2 legible, known, (agree []).2 _ known⟩

def recalled (confidence : Float) : Option FunctionNode :=
  (answer (.function "a.py:f:1") (answer (.named "f")
    (save callerShard (save (sureShard confidence) blankStore).2).2).2).1

def Differs (confidence : Float) : Prop :=
  Sources (sureShards confidence) ∧
    Saves (sureShards confidence) blankStore
      (save callerShard (save (sureShard confidence) blankStore).2).2 ∧
    recalled confidence ≠
      (CallGraph.ofShards (sureShards confidence)).answers (.function "a.py:f:1")

theorem differs_of_lost {confidence : Float}
    (free : (save (sureShard confidence) blankStore).1.isOk = true ∧
      (save callerShard (save (sureShard confidence) blankStore).2).1.isOk = true)
    (lost : ((recalled confidence).map fun f => f.calls.map (·.confidence)) ≠ some [confidence]) :
    Differs confidence := by
  refine ⟨sources_sureShards confidence, saves_sureShards free, fun same => lost ?_⟩
  rw [same]
  rfl

/-- A confidence may be read back as one of its neighbours, and with one that is no number the shard
is not read back at all. -/
theorem sources_differ :
    Differs 0.18068312647357562 ∧ Differs 9007199254740991 ∧
      Differs (Float.ofBits 0x7FF8000000000000) ∧
      (recalled (Float.ofBits 0x7FF8000000000000)).isNone = true := by
  refine ⟨?_, ?_, ?_, by decide +kernel⟩
  all_goals exact differs_of_lost (by decide +kernel) (by decide +kernel)

end Store

end DataReach
