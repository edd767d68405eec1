import DataReach.Proofs.FunctionId
import Mathlib.Data.List.Nodup
import Mathlib.Data.List.Perm.Basic
/-!
Where the items of an extraction come to stand in the shard of its file. Of the functions the first
of each id is kept, in the order of their lines and names. Each call, and each access of a table,
goes to the innermost function around its line; none is lost or doubled, and those of one line keep
their order.
-/

namespace DataReach

open scoped List

/-! ### Innermost functions -/

section Innermost

variable {functions others : List FunctionNode} {line : UInt32}

theorem innermostFrom_congr (i : Nat) (best : Option Nat) (size : UInt32)
    (same : functions.map (fun f => (f.startLine, f.endLine)) =
      others.map fun f => (f.startLine, f.endLine)) :
    innermostFrom line i best size functions = innermostFrom line i best size others := by
  induction functions generalizing others i best size with
  | nil => rw [List.map_eq_nil_iff.mp same.symm]
  | cons f rest ih =>
    cases others with
    | nil => cases same
    | cons g others =>
      simp only [List.map_cons, List.cons.injEq, Prod.mk.injEq] at same
      obtain ⟨⟨start, finish⟩, rest⟩ := same
      have contains : f.containsLine line = g.containsLine line := by
        rw [FunctionNode.containsLine, start, finish, FunctionNode.containsLine]
      have span : f.span = g.span := by
        rw [FunctionNode.span, start, finish, FunctionNode.span]
      simp only [innermostFrom, contains, span, ih _ _ _ rest]

theorem innermostFrom_bound {i j : Nat} {best : Option Nat} {size : UInt32}
    (found : innermostFrom line i best size functions = some j) :
    best = some j ∨ j < i + functions.length := by
  induction functions generalizing i best size with
  | nil => exact .inl found
  | cons f rest ih =>
    rw [innermostFrom] at found
    rw [List.length_cons]
    split at found
    · rcases ih found with here | later
      · cases here
        omega
      · omega
    · rcases ih found with before | later
      · exact .inl before
      · omega

theorem innermostPosition_lt {i : Nat} (found : innermostPosition functions line = some i) :
    i < functions.length := by
  rcases innermostFrom_bound found with none | below
  · cases none
  · omega

end Innermost

/-! ### Items of functions -/

/-- The items `ys` of some functions are made of a list of extracted ones, each of them once. Those
of a line are with the innermost function around it and stand as they were extracted. -/
structure Attached (functions : List FunctionNode) (xs : List α) (lineOf : α → UInt32)
    (make : α → β) (ys : FunctionNode → List β) (line : β → UInt32) : Prop where
  conserved : (functions.flatMap ys).Perm
    ((xs.filter fun x => (innermostPosition functions (lineOf x)).isSome).map make)
  placed : ∀ i f, functions[i]? = some f → ∀ l, (ys f).filter (line · == l) =
    if innermostPosition functions l = some i then (xs.filter (lineOf · == l)).map make else []
  sorted : ∀ f ∈ functions, (ys f).Pairwise fun a b => line a ≤ line b

section Items

variable {α β : Type}

theorem byLine_sorted (line : β → UInt32) (ys : List β) :
    (ys.mergeSort fun a b => decide (line a ≤ line b)).Pairwise fun a b => line a ≤ line b := by
  have sorted : (ys.mergeSort fun a b => decide (line a ≤ line b)).Pairwise
      fun a b => decide (line a ≤ line b) = true :=
    List.pairwise_mergeSort (fun a b c first second => by grind) (fun a b => by grind) ys
  exact sorted.imp fun le => of_decide_eq_true le

theorem byLine_stable (line : β → UInt32) (ys : List β) (l : UInt32) :
    (ys.mergeSort fun a b => decide (line a ≤ line b)).filter (line · == l) =
      ys.filter (line · == l) := by
  have level : (ys.filter (line · == l)).Pairwise fun a b => decide (line a ≤ line b) = true := by
    refine List.pairwise_of_forall_mem_list fun a first b second => ?_
    have own := (List.mem_filter.mp first).2
    have own' := (List.mem_filter.mp second).2
    grind
  have kept := List.sublist_mergeSort (fun a b c first second => by grind) (fun a b => by grind)
    level List.filter_sublist
  have inside := kept.filter (line · == l)
  rw [List.filter_filter] at inside
  simp only [Bool.and_self] at inside
  have length := ((List.mergeSort_perm ys fun a b => decide (line a ≤ line b)).filter
    (line · == l)).length_eq
  exact (inside.eq_of_length length.symm).symm

theorem gathered_perm (position : α → Option Nat) (xs : List α) (n : Nat) :
    ((List.range n).flatMap fun i => xs.filter (position · == some i)).Perm
      (xs.filter fun x => (position x).any (· < n)) := by
  induction n with
  | zero => simp
  | succ n ih =>
    have parts := List.filter_append_perm (fun x => (position x).any (· < n))
      (xs.filter fun x => (position x).any (· < n + 1))
    have lower : (xs.filter fun x => (position x).any (· < n + 1)).filter
        (fun x => (position x).any (· < n)) = xs.filter fun x => (position x).any (· < n) := by
      rw [List.filter_filter]
      refine List.filter_congr fun x _ => ?_
      cases position x with
      | none => rfl
      | some i =>
        have wider : i < n → i < n + 1 := Nat.lt_succ_of_lt
        simpa using wider
    have last : (xs.filter fun x => (position x).any (· < n + 1)).filter
        (fun x => !(position x).any (· < n)) = xs.filter (position · == some n) := by
      rw [List.filter_filter]
      refine List.filter_congr fun x _ => ?_
      cases position x with
      | none => rfl
      | some i =>
        have only : (n ≤ i ∧ i < n + 1) ↔ i = n := by omega
        rw [Bool.eq_iff_iff]
        simpa only [Option.any_some, Bool.and_eq_true, Bool.not_eq_true', decide_eq_false_iff_not,
          decide_eq_true_eq, beq_iff_eq, Option.some.injEq, Nat.not_lt] using only
    rw [lower, last] at parts
    rw [List.range_succ, List.flatMap_append, List.flatMap_singleton]
    exact (ih.append_right _).trans parts

def itemsAt (functions : List FunctionNode) (xs : List α) (lineOf : α → UInt32) (i : Nat) :
    List α :=
  xs.filter fun x => innermostPosition functions (lineOf x) == some i

theorem itemsAt_perm (functions : List FunctionNode) (xs : List α) (lineOf : α → UInt32) :
    (List.range functions.length).flatMap (itemsAt functions xs lineOf) ~
      xs.filter fun x => (innermostPosition functions (lineOf x)).isSome := by
  have known : (xs.filter fun x => (innermostPosition functions (lineOf x)).isSome) =
      xs.filter fun x => (innermostPosition functions (lineOf x)).any (· < functions.length) := by
    refine List.filter_congr fun x _ => ?_
    cases inner : innermostPosition functions (lineOf x) with
    | none => rfl
    | some i => simpa using innermostPosition_lt inner
  rw [known]
  exact gathered_perm (fun x => innermostPosition functions (lineOf x)) xs functions.length

theorem attached_of_positions {functions : List FunctionNode} {xs : List α} {lineOf : α → UInt32}
    {make : α → β} {ys : FunctionNode → List β} {line : β → UInt32}
    (own : ∀ x, line (make x) = lineOf x)
    (taken : ∀ i f, functions[i]? = some f → ys f =
      ((itemsAt functions xs lineOf i).map make).mergeSort fun a b => decide (line a ≤ line b)) :
    Attached functions xs lineOf make ys line := by
  constructor
  · have each : functions.map ys = (List.range functions.length).map fun i =>
        ((itemsAt functions xs lineOf i).map make).mergeSort
          fun a b => decide (line a ≤ line b) := by
      refine List.ext_getElem (by simp) fun i inside _ => ?_
      rw [List.length_map] at inside
      simp only [List.getElem_map, List.getElem_range]
      exact taken i _ (List.getElem?_eq_getElem inside)
    calc functions.flatMap ys
      _ = (List.range functions.length).flatMap fun i =>
            ((itemsAt functions xs lineOf i).map make).mergeSort
              fun a b => decide (line a ≤ line b) := by
          rw [List.flatMap_def, each, List.flatMap_def]
      _ ~ (List.range functions.length).flatMap fun i =>
            (itemsAt functions xs lineOf i).map make :=
          List.Perm.flatMap_left _ fun i _ => List.mergeSort_perm _ _
      _ = ((List.range functions.length).flatMap (itemsAt functions xs lineOf)).map make :=
          List.map_flatMap.symm
      _ ~ _ := (itemsAt_perm functions xs lineOf).map make
  · intro i f here l
    rw [taken i f here, byLine_stable, itemsAt, List.filter_map, List.filter_filter]
    simp only [Function.comp_def, own]
    split
    · next inner =>
      refine congrArg (List.map make) (List.filter_congr fun x _ => ?_)
      by_cases on : lineOf x = l
      · simp [on, inner]
      · simp [on]
    · next outer =>
      refine List.map_eq_nil_iff.mpr (List.filter_eq_nil_iff.mpr fun x _ => ?_)
      simp only [Bool.and_eq_true, beq_iff_eq, not_and]
      rintro rfl inner
      exact outer inner
  · intro f member
    obtain ⟨i, here⟩ := List.getElem?_of_mem member
    rw [taken i f here]
    exact byLine_sorted line _

end Items

/-! ### Functions kept -/

theorem find?_of_mem_distinctBy [BEq κ] [LawfulBEq κ] {key : α → κ} {xs : List α} {a : α}
    (member : a ∈ distinctBy key xs) : xs.find? (fun b => key b == key a) = some a := by
  induction xs with
  | nil => cases member
  | cons first rest ih =>
    rcases List.mem_cons.mp member with rfl | later
    · simp
    · obtain ⟨inside, other⟩ := List.mem_filter.mp later
      have differs : (key first == key a) = false := by
        rw [BEq.comm]
        simpa using other
      rw [List.find?_cons_of_neg (by simpa using differs)]
      exact ih inside

def FunctionNode.Precedes (f g : FunctionNode) : Prop :=
  f.startLine < g.startLine ∨ f.startLine = g.startLine ∧ f.name < g.name

namespace Extraction

theorem byPosition_trans (f g h : FunctionNode) (first : byPosition f g = true)
    (second : byPosition g h = true) : byPosition f h = true := by
  grind [byPosition]

theorem byPosition_total (f g : FunctionNode) : (byPosition f g || byPosition g f) = true := by
  grind [byPosition]

theorem precedes_of_byPosition {f g : FunctionNode} (before : byPosition f g = true)
    (other : f.startLine = g.startLine → f.name ≠ g.name) : f.Precedes g := by
  grind [byPosition, FunctionNode.Precedes]

variable (file : String) (e : Extraction) (accesses : List ExtractedAccess)

theorem shard_functions (i : Nat) : (e.shard file accesses).functions[i]? =
    (nodes file e)[i]?.map (attach (nodes file e) e.calls accesses · i) := by
  simp [shard, List.getElem?_map, List.getElem?_zipIdx, Function.comp_def]

theorem map_shard {α : Type} (p : FunctionNode → α)
    (same : ∀ f i, p (attach (nodes file e) e.calls accesses f i) = p f) :
    (e.shard file accesses).functions.map p = (nodes file e).map p := by
  refine List.ext_getElem? fun i => ?_
  rw [List.getElem?_map, List.getElem?_map, shard_functions, Option.map_map]
  simp only [Function.comp_def, same]

theorem first_of_mem_nodes {f : FunctionNode} (member : f ∈ nodes file e) :
    ∃ x, (e.functions.find? fun y => FunctionNode.makeId file y.name y.startLine == f.id) = some x ∧
      x.toNode file e.classes = f := by
  have kept := find?_of_mem_distinctBy (List.mem_mergeSort.mp member)
  rw [List.find?_map] at kept
  exact Option.map_eq_some_iff.mp kept

theorem id_mem_nodes {x : ExtractedFunction} (member : x ∈ e.functions) :
    ∃ f ∈ nodes file e, f.id = FunctionNode.makeId file x.name x.startLine := by
  have kept := key_mem_distinctBy FunctionNode.id
    (List.mem_map_of_mem (f := (·.toNode file e.classes)) member)
  obtain ⟨f, inside, same⟩ := List.mem_map.mp kept
  exact ⟨f, List.mem_mergeSort.mpr inside, same⟩

theorem nodup_nodes : ((nodes file e).map (·.id)).Nodup := by
  rw [← map_shard file e [] (·.id) fun _ _ => rfl]
  exact (placed_shard file e []).once

theorem nodes_ascending : (nodes file e).Pairwise FunctionNode.Precedes := by
  have sorted : (nodes file e).Pairwise fun f g => byPosition f g = true :=
    List.pairwise_mergeSort byPosition_trans byPosition_total _
  have differ := List.pairwise_map.mp (nodup_nodes file e)
  refine (sorted.and differ).imp_of_mem fun {f g} inside inside' both => ?_
  refine precedes_of_byPosition both.1 fun line name => both.2 ?_
  obtain ⟨x, -, rfl⟩ := first_of_mem_nodes file e inside
  obtain ⟨y, -, rfl⟩ := first_of_mem_nodes file e inside'
  exact congrArg₂ (FunctionNode.makeId file) name line

/-- What the shard of a file tells of its extraction, and all that it tells. -/
structure Places (file : String) (e : Extraction) (accesses : List ExtractedAccess) (s : Shard) :
    Prop where
  place : s.file = file
  once : (s.functions.map (·.id)).Nodup
  ascending : s.functions.Pairwise FunctionNode.Precedes
  first : ∀ f ∈ s.functions, ∃ x,
    (e.functions.find? fun y => FunctionNode.makeId file y.name y.startLine == f.id) = some x ∧
      f = { x.toNode file e.classes with
        calls := f.calls, dataAccess := f.dataAccess, isDataAccessor := f.isDataAccessor }
  kept : ∀ x ∈ e.functions, ∃ f ∈ s.functions,
    f.id = FunctionNode.makeId file x.name x.startLine
  lines : ∀ f ∈ s.functions, f.startLine ≤ f.endLine
  calls : Attached s.functions e.calls (·.line) (fun c => .unresolved c.target c.line) (·.calls)
    (·.line)
  accesses : Attached s.functions (accesses.filter (TableName.isValid ·.table)) (·.line)
    ExtractedAccess.toAccess (·.dataAccess) (·.line)
  accessor : ∀ f ∈ s.functions, f.isDataAccessor = true ↔ f.dataAccess ≠ []
  uncalled : ∀ f ∈ s.functions, f.calledBy = []

theorem innermostPosition_shard :
    innermostPosition (e.shard file accesses).functions = innermostPosition (nodes file e) := by
  funext line
  refine innermostFrom_congr 0 none _ (List.ext_getElem? fun i => ?_)
  rw [List.getElem?_map, List.getElem?_map, shard_functions, Option.map_map]
  rfl

theorem mem_shard {f : FunctionNode} (member : f ∈ (e.shard file accesses).functions) :
    ∃ g ∈ nodes file e, ∃ i, f = attach (nodes file e) e.calls accesses g i := by
  obtain ⟨i, here⟩ := List.getElem?_of_mem member
  rw [shard_functions] at here
  obtain ⟨g, own, rfl⟩ := Option.map_eq_some_iff.mp here
  exact ⟨g, List.mem_of_getElem? own, i, rfl⟩

theorem calls_attached : Attached (e.shard file accesses).functions e.calls (·.line)
    (fun c => .unresolved c.target c.line) (·.calls) (·.line) := by
  refine attached_of_positions (fun _ => rfl) fun i f here => ?_
  rw [shard_functions] at here
  obtain ⟨g, -, rfl⟩ := Option.map_eq_some_iff.mp here
  rw [itemsAt, innermostPosition_shard]
  rfl

theorem accesses_attached : Attached (e.shard file accesses).functions
    (accesses.filter (TableName.isValid ·.table)) (·.line) ExtractedAccess.toAccess (·.dataAccess)
    (·.line) := by
  refine attached_of_positions (fun _ => rfl) fun i f here => ?_
  rw [shard_functions] at here
  obtain ⟨g, -, rfl⟩ := Option.map_eq_some_iff.mp here
  rw [itemsAt, innermostPosition_shard, List.filter_filter]
  simp only [attach, accessesAt, Bool.and_comm]

/-- Every extraction is placed, whatever the ranges and ids of its functions are. -/
theorem places_shard : Places file e accesses (e.shard file accesses) := by
  have ids := map_shard file e accesses (·.id) fun _ _ => rfl
  refine ⟨rfl, ?_, ?_, ?_, ?_, ?_, calls_attached file e accesses,
    accesses_attached file e accesses, ?_, ?_⟩
  · exact (placed_shard file e accesses).once
  · have places := map_shard file e accesses (fun f => (f.startLine, f.name)) fun _ _ => rfl
    have ascending : ((nodes file e).map fun f => (f.startLine, f.name)).Pairwise
        fun a b => a.1 < b.1 ∨ a.1 = b.1 ∧ a.2 < b.2 :=
      List.pairwise_map.mpr (nodes_ascending file e)
    rw [← places, List.pairwise_map] at ascending
    exact ascending
  · intro f member
    obtain ⟨g, inside, i, rfl⟩ := mem_shard file e accesses member
    obtain ⟨x, found, rfl⟩ := first_of_mem_nodes file e inside
    exact ⟨x, found, rfl⟩
  · intro x member
    obtain ⟨g, inside, same⟩ := id_mem_nodes file e member
    have listed : FunctionNode.makeId file x.name x.startLine ∈
        (e.shard file accesses).functions.map (·.id) :=
      ids ▸ List.mem_map.mpr ⟨g, inside, same⟩
    exact List.mem_map.mp listed
  · intro f member
    obtain ⟨g, inside, i, rfl⟩ := mem_shard file e accesses member
    obtain ⟨x, -, rfl⟩ := first_of_mem_nodes file e inside
    change x.startLine ≤ max x.endLine x.startLine
    simp only [max]
    grind
  · intro f member
    obtain ⟨g, -, i, rfl⟩ := mem_shard file e accesses member
    simp [attach]
  · intro f member
    obtain ⟨g, inside, i, rfl⟩ := mem_shard file e accesses member
    obtain ⟨x, -, rfl⟩ := first_of_mem_nodes file e inside
    rfl

end Extraction

end DataReach
