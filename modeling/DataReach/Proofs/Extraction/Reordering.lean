import DataReach.Proofs.Extraction.Placement
/-!
The order in which an extractor lists what it found. Where no two functions of a file share their name
and start line, the shard is the same in whatever order they are listed. Calls and accesses may be
listed in any order that leaves those of one line as they are.
-/

namespace DataReach

open scoped List

/-! ### Items listed in another order -/

section Items

variable {α β : Type} {lineOf : α → UInt32} {xs ys : List α}

def SameByLine (lineOf : α → UInt32) (xs ys : List α) : Prop :=
  ∀ l, xs.filter (lineOf · == l) = ys.filter (lineOf · == l)

namespace SameByLine

theorem refl (xs : List α) : SameByLine lineOf xs xs := fun _ => rfl

theorem swap {x y : α} (other : lineOf x ≠ lineOf y) (xs : List α) :
    SameByLine lineOf (x :: y :: xs) (y :: x :: xs) := by
  intro l
  by_cases first : lineOf x = l
  · have second : lineOf y ≠ l := fun same => other (first.trans same.symm)
    simp [first, second]
  · simp [List.filter_cons, first]

theorem mem_iff (same : SameByLine lineOf xs ys) {x : α} : x ∈ xs ↔ x ∈ ys := by
  have own : ∀ zs : List α, x ∈ zs.filter (lineOf · == lineOf x) ↔ x ∈ zs := by simp
  rw [← own xs, same, own ys]

theorem filter (same : SameByLine lineOf xs ys) (p : α → Bool) :
    SameByLine lineOf (xs.filter p) (ys.filter p) := by
  intro l
  rw [List.filter_comm, same l, List.filter_comm]

theorem map (same : SameByLine lineOf xs ys) (make : α → β) {line : β → UInt32}
    (own : ∀ x, line (make x) = lineOf x) : SameByLine line (xs.map make) (ys.map make) := by
  intro l
  simp only [List.filter_map, Function.comp_def, own]
  rw [same l]

theorem eq_of_sorted (same : SameByLine lineOf xs ys)
    (sorted : xs.Pairwise fun a b => lineOf a ≤ lineOf b)
    (sorted' : ys.Pairwise fun a b => lineOf a ≤ lineOf b) : xs = ys := by
  induction xs generalizing ys with
  | nil =>
    refine (List.eq_nil_iff_forall_not_mem.mpr fun y member => ?_).symm
    exact List.not_mem_nil (same.mem_iff.mpr member)
  | cons x xs ih =>
    cases ys with
    | nil => exact absurd (same.mem_iff.mp (List.mem_cons_self ..)) List.not_mem_nil
    | cons y ys =>
      obtain ⟨least, rest⟩ := List.pairwise_cons.mp sorted
      obtain ⟨least', rest'⟩ := List.pairwise_cons.mp sorted'
      have level : lineOf x = lineOf y := by
        refine UInt32.le_antisymm ?_ ?_
        · rcases List.mem_cons.mp (same.mem_iff.mpr (List.mem_cons_self ..)) with here | later
          · exact here ▸ UInt32.le_refl _
          · exact least y later
        · rcases List.mem_cons.mp (same.mem_iff.mp (List.mem_cons_self ..)) with here | later
          · exact here ▸ UInt32.le_refl _
          · exact least' x later
      have heads := same (lineOf y)
      simp only [List.filter_cons, level, beq_self_eq_true, if_true, List.cons.injEq] at heads
      have tails : SameByLine lineOf xs ys := by
        intro l
        have whole := same l
        rw [heads.1, List.filter_cons, List.filter_cons] at whole
        split at whole
        · exact List.tail_eq_of_cons_eq whole
        · exact whole
      rw [heads.1, ih tails rest rest']

theorem mergeSort_eq (same : SameByLine lineOf xs ys) :
    (xs.mergeSort fun a b => decide (lineOf a ≤ lineOf b)) =
      ys.mergeSort fun a b => decide (lineOf a ≤ lineOf b) := by
  have sorted : SameByLine lineOf (xs.mergeSort fun a b => decide (lineOf a ≤ lineOf b))
      (ys.mergeSort fun a b => decide (lineOf a ≤ lineOf b)) := by
    intro l
    rw [byLine_stable, byLine_stable, same l]
  exact sorted.eq_of_sorted (byLine_sorted lineOf xs) (byLine_sorted lineOf ys)

end SameByLine

end Items

/-! ### Functions listed in another order -/

theorem FunctionNode.Precedes.asymm {f g : FunctionNode} (before : f.Precedes g) :
    ¬ g.Precedes f := by
  grind [FunctionNode.Precedes]

namespace Extraction

variable {file : String} {e : Extraction}

/-- Functions that differ in name or line differ in their ids, and so none is dropped. -/
theorem nodes_perm_functions
    (once : (e.functions.map fun f => (f.name, f.startLine)).Nodup) :
    nodes file e ~ e.functions.map (·.toNode file e.classes) := by
  have ids : ((e.functions.map (·.toNode file e.classes)).map (·.id)).Nodup := by
    rw [List.map_map]
    refine List.pairwise_map.mpr ((List.pairwise_map.mp once).imp fun {f g} other same => other ?_)
    obtain ⟨name, line⟩ := FunctionNode.makeId_inj.mp same
    rw [name, line]
  rw [nodes, distinctBy_of_nodup ids]
  exact List.mergeSort_perm ..

theorem nodes_reordered {functions : List ExtractedFunction}
    (once : (e.functions.map fun f => (f.name, f.startLine)).Nodup)
    (listed : functions ~ e.functions) :
    nodes file { e with functions } = nodes file e := by
  have once' : (functions.map fun f => (f.name, f.startLine)).Nodup :=
    (listed.map _).nodup_iff.mpr once
  have same : nodes file { e with functions } ~ nodes file e :=
    calc nodes file { e with functions }
      _ ~ functions.map (·.toNode file e.classes) :=
          nodes_perm_functions (e := { e with functions }) once'
      _ ~ e.functions.map (·.toNode file e.classes) := listed.map _
      _ ~ nodes file e := (nodes_perm_functions once).symm
  exact same.eq_of_pairwise (fun _ _ _ _ before after => absurd after before.asymm)
    (nodes_ascending ..) (nodes_ascending ..)

theorem callsAt_reordered (functions : List FunctionNode) {calls calls' : List ExtractedCall}
    (same : SameByLine (·.line) calls calls') :
    callsAt functions calls = callsAt functions calls' := by
  funext i
  exact ((same.filter _).map (fun c => CallEdge.unresolved c.target c.line) fun _ => rfl).mergeSort_eq

theorem accessesAt_reordered (functions : List FunctionNode)
    {accesses accesses' : List ExtractedAccess} (same : SameByLine (·.line) accesses accesses') :
    accessesAt functions accesses = accessesAt functions accesses' := by
  funext i
  exact ((same.filter _).map ExtractedAccess.toAccess fun _ => rfl).mergeSort_eq

/-- The shard of a file does not depend on the order in which its functions are listed, nor on how
the calls and accesses of different lines are mixed. -/
theorem shard_reordered (file : String) (e : Extraction) {functions : List ExtractedFunction}
    {calls : List ExtractedCall} {accesses accesses' : List ExtractedAccess}
    (once : (e.functions.map fun f => (f.name, f.startLine)).Nodup)
    (listed : functions ~ e.functions) (sameCalls : SameByLine (·.line) calls e.calls)
    (sameAccesses : SameByLine (·.line) accesses' accesses) :
    shard file { e with functions, calls } accesses' = shard file e accesses := by
  have kept : nodes file { e with functions, calls } = nodes file e :=
    nodes_reordered once listed
  have items : attach (nodes file e) calls accesses' = attach (nodes file e) e.calls accesses := by
    funext f i
    rw [attach, attach, callsAt_reordered _ sameCalls, accessesAt_reordered _ sameAccesses]
  simp only [shard, kept, items]

/-- A function without anything that would tell it from others but its name and lines. -/
def bare (name : String) (startLine endLine : UInt32) : ExtractedFunction :=
  ⟨name, none, startLine, endLine, false, none, []⟩

def bareCall (calleeName : String) (line : UInt32) : ExtractedCall := ⟨calleeName, line, none⟩

/-- Two functions of the same lines, of which the calls go to the first in the order of names, and
two calls on one line. -/
def overlaid : Extraction where
  file := "a.py"
  language := "python"
  functions := [bare "load" 1 9, bare "save" 1 9, bare "part" 4 6]
  calls := [bareCall "open" 2, bareCall "read" 5, bareCall "close" 5]
  imports := []
  classes := []
  accesses := []
  errors := []

theorem shard_reordered_overlaid :
    shard "a.py" { overlaid with
        functions := [bare "save" 1 9, bare "load" 1 9, bare "part" 4 6]
        calls := [bareCall "read" 5, bareCall "open" 2, bareCall "close" 5] } [] =
      shard "a.py" overlaid [] := by
  apply shard_reordered
  · decide
  · exact List.Perm.swap ..
  · exact .swap (by decide) _
  · exact .refl []

end Extraction

end DataReach
