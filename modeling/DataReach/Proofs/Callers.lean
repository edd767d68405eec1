import DataReach.Callers
import DataReach.Proofs.Sorting
import Mathlib.Data.List.Induction
/-!
The callers of a function are those that call it, each with the least line of its calls. The map of
all callers is made call by call; what it has for a pair of functions is a minimum over the calls
so far.
-/

namespace DataReach

/-- A function with the one id has a call, in this line, that is resolved to the other id. -/
def Calls (functions : List FunctionNode) (caller callee : String) (line : UInt32) : Prop :=
  ∃ f ∈ functions, f.id = caller ∧ ∃ e ∈ f.calls,
    e.resolved = true ∧ e.resolvedId = some callee ∧ e.line = line

structure Call where
  callee : String
  caller : String
  line : UInt32

def callsOf (functions : List FunctionNode) : List Call :=
  functions.flatMap fun f => f.calls.filterMap fun e => e.callee?.map (⟨·, f.id, e.line⟩)

theorem mem_callsOf {functions : List FunctionNode} {caller callee : String} {line : UInt32} :
    ⟨callee, caller, line⟩ ∈ callsOf functions ↔ Calls functions caller callee line := by
  simp only [callsOf, List.mem_flatMap, List.mem_filterMap, Option.map_eq_some_iff, Call.mk.injEq]
  constructor
  · intro given
    rcases given with ⟨f, inside, e, member, id, found, rfl, rfl, rfl⟩
    rw [CallEdge.callee?] at found
    split at found
    · next resolved => exact ⟨f, inside, rfl, e, member, resolved, found, rfl⟩
    · cases found
  · intro given
    rcases given with ⟨f, inside, rfl, e, member, resolved, found, rfl⟩
    exact ⟨f, inside, e, member, callee, by simp [CallEdge.callee?, resolved, found], rfl, rfl, rfl⟩

namespace CallerMap

def add (m : CallerMap) (c : Call) : CallerMap := m.addCall c.callee c.caller c.line

theorem addFunction_eq (m : CallerMap) (f : FunctionNode) :
    m.addFunction f = (f.calls.filterMap fun e => e.callee?.map (⟨·, f.id, e.line⟩)).foldl add m := by
  rw [addFunction, List.foldl_filterMap]
  congr 1
  funext m e
  cases e.callee? <;> rfl

theorem addShard_eq (m : CallerMap) (s : Shard) :
    m.addShard s = (callsOf s.functions).foldl add m := by
  rw [addShard, callsOf, List.foldl_flatMap]
  congr 1
  funext m f
  exact addFunction_eq m f

theorem ofShards_eq (shards : List Shard) :
    ofShards shards = (callsOf (shards.flatMap (·.functions))).foldl add [] := by
  calc
    ofShards shards = shards.foldl (fun m s => (callsOf s.functions).foldl add m) [] := by
      rw [ofShards]
      congr 1
      funext m s
      exact addShard_eq m s
    _ = (shards.flatMap fun s => callsOf s.functions).foldl add [] := by
      rw [List.foldl_flatMap]
    _ = (callsOf (shards.flatMap (·.functions))).foldl add [] := by
      rw [callsOf, List.flatMap_assoc]
      rfl

def line? (m : CallerMap) (callee caller : String) : Option UInt32 :=
  (m.get? callee).bind (·.get? caller)

theorem line?_add (m : CallerMap) (c : Call) (callee caller : String) :
    (m.add c).line? callee caller = if callee = c.callee ∧ caller = c.caller then
      some (match m.line? callee caller with
        | some l => min l c.line
        | none => c.line)
    else m.line? callee caller := by
  rw [line?, line?, add, addCall, Dict.get?_alter]
  by_cases called : callee = c.callee
  · subst called
    by_cases calling : caller = c.caller
    · subst calling
      cases found : m.get? c.callee with
      | none => simp [Dict.get?_alter]
      | some callers => cases known : callers.get? c.caller <;> simp [Dict.get?_alter, known]
    · cases found : m.get? c.callee with
      | none => simp [Dict.get?_alter, calling]
      | some callers => simp [Dict.get?_alter, calling]
  · simp [called]

def linesBetween (calls : List Call) (callee caller : String) : List UInt32 :=
  (calls.filter fun c => decide (callee = c.callee ∧ caller = c.caller)).map (·.line)

theorem mem_linesBetween {calls : List Call} {callee caller : String} {l : UInt32} :
    l ∈ linesBetween calls callee caller ↔ ⟨callee, caller, l⟩ ∈ calls := by
  simp only [linesBetween, List.mem_map, List.mem_filter, decide_eq_true_eq]
  constructor
  · intro given
    rcases given with ⟨c, ⟨member, rfl, rfl⟩, rfl⟩
    exact member
  · intro member
    exact ⟨_, ⟨member, rfl, rfl⟩, rfl⟩

theorem min?_append_singleton (lines : List UInt32) (line : UInt32) :
    (lines ++ [line]).min? = some (match lines.min? with
      | some l => min l line
      | none => line) := by
  cases lines with
  | nil => rfl
  | cons first rest => simp [List.min?, List.foldl_append]

theorem line?_foldl (calls : List Call) (callee caller : String) :
    (calls.foldl add []).line? callee caller = (linesBetween calls callee caller).min? := by
  induction calls using List.reverseRecOn with
  | nil => rfl
  | append_singleton front c ih =>
    have split : linesBetween (front ++ [c]) callee caller =
        linesBetween front callee caller ++ linesBetween [c] callee caller := by
      simp [linesBetween]
    have step := line?_add (front.foldl add []) c callee caller
    rw [List.foldl_append, List.foldl_cons, List.foldl_nil, step, ih, split]
    by_cases own : callee = c.callee ∧ caller = c.caller
    · have here : linesBetween [c] callee caller = [c.line] := by simp [linesBetween, own]
      rw [if_pos own, here, min?_append_singleton]
    · have nothing : linesBetween [c] callee caller = [] := by simp [linesBetween, own]
      rw [if_neg own, nothing, List.append_nil]

theorem line?_iff (calls : List Call) (callee caller : String) (l : UInt32) :
    (calls.foldl add []).line? callee caller = some l ↔
      ⟨callee, caller, l⟩ ∈ calls ∧ ∀ k, ⟨callee, caller, k⟩ ∈ calls → l ≤ k := by
  rw [line?_foldl, List.min?_eq_some_iff]
  simp only [mem_linesBetween]

def Distinct (m : CallerMap) : Prop :=
  ∀ callee callers, m.get? callee = some callers → (Dict.keys callers).Nodup

theorem distinct_add {m : CallerMap} (distinct : m.Distinct) (c : Call) : (m.add c).Distinct := by
  intro callee callers found
  rw [add, addCall, Dict.get?_alter] at found
  split at found
  · cases found
    refine Dict.nodup_keys_alter _ _ _ ?_
    cases before : m.get? c.callee with
    | none => exact List.nodup_nil
    | some callers => exact distinct c.callee callers before
  · exact distinct callee callers found

theorem distinct_foldl (calls : List Call) : (calls.foldl add []).Distinct := by
  induction calls using List.reverseRecOn with
  | nil =>
    intro callee callers found
    cases found
  | append_singleton front c ih =>
    rw [List.foldl_append]
    exact distinct_add ih c

theorem nodup_callers {m : CallerMap} (distinct : m.Distinct) (id : String) :
    (Dict.keys ((m.get? id).getD [])).Nodup := by
  cases found : m.get? id with
  | none => exact List.nodup_nil
  | some callers => exact distinct id callers found

theorem mem_refs {m : CallerMap} (distinct : m.Distinct) {id : String} {r : CallerRef} :
    r ∈ m.refs id ↔ m.line? id r.callerId = some r.line := by
  have once := nodup_callers distinct id
  have looked : m.line? id r.callerId = Dict.get? ((m.get? id).getD []) r.callerId := by
    cases found : m.get? id <;> simp [line?, found]
  rw [refs, sortBy_eq, List.mem_mergeSort, List.mem_map, looked]
  constructor
  · intro given
    rcases given with ⟨entry, member, rfl⟩
    exact Dict.get?_of_mem once member
  · intro found
    exact ⟨_, Dict.mem_of_get? found, rfl⟩

theorem exists_mem_refs (calls : List Call) (callee caller : String) :
    (∃ r ∈ (calls.foldl add []).refs callee, r.callerId = caller) ↔
      ∃ line, ⟨callee, caller, line⟩ ∈ calls := by
  have distinct := distinct_foldl calls
  constructor
  · intro given
    obtain ⟨r, member, rfl⟩ := given
    exact ⟨r.line, ((line?_iff ..).mp ((mem_refs distinct).mp member)).1⟩
  · intro given
    obtain ⟨line, member⟩ := given
    have some : linesBetween calls callee caller ≠ [] :=
      List.ne_nil_of_mem (mem_linesBetween.mpr member)
    obtain ⟨least, found⟩ := Option.isSome_iff_exists.mp (List.isSome_min?_of_ne_nil some)
    rw [← line?_foldl] at found
    exact ⟨⟨caller, least⟩, (mem_refs distinct).mpr found, rfl⟩

theorem refs_ascending {m : CallerMap} (distinct : m.Distinct) (id : String) :
    (m.refs id).Pairwise fun a b => a.callerId < b.callerId := by
  rw [refs, sortBy_eq]
  refine mergeSort_ascending CallerRef.callerId _ ?_
  rw [List.map_map]
  exact nodup_callers distinct id

end CallerMap

theorem Shard.withCallers_of_settled {s : Shard} {m : CallerMap}
    (settled : s.needsCallers m = false) : s.withCallers m = s := by
  simp only [needsCallers, List.any_eq_false, bne_iff_ne, ne_eq, Decidable.not_not] at settled
  have functions : (s.functions.map fun f => { f with calledBy := m.refs f.id }) = s.functions := by
    refine (List.map_congr_left fun f inside => ?_).trans (List.map_id _)
    rw [← settled f inside]
    rfl
  rw [withCallers, functions]

end DataReach
