import DataReach.SortBy
import Mathlib.Data.List.Sort
/-! Sorted lists: what is found first in them, and lists sorted by a text of each item. -/

namespace DataReach

variable {α : Type}

theorem find?_sorted {R : α → α → Prop} {xs : List α} {p : α → Bool} {a b : α}
    (sorted : xs.Pairwise R) (found : xs.find? p = some a) (member : b ∈ xs) (fits : p b = true) :
    b = a ∨ R a b := by
  obtain ⟨-, front, back, whole, none⟩ := List.find?_eq_some_iff_append.mp found
  rw [whole] at sorted member
  rcases List.mem_append.mp member with earlier | later
  · simpa [fits] using none b earlier
  · rcases List.mem_cons.mp later with same | after
    · exact .inl same
    · exact .inr (List.rel_of_pairwise_cons (List.pairwise_append.mp sorted).2.1 after)

theorem mergeSort_sorted (key : α → String) (xs : List α) :
    (xs.mergeSort fun a b => decide (key a ≤ key b)).Pairwise fun a b => key a ≤ key b := by
  have sorted := List.pairwise_mergeSort
    (fun a b c (first : decide (key a ≤ key b) = true) (second : decide (key b ≤ key c) = true) =>
      decide_eq_true (String.le_trans (of_decide_eq_true first) (of_decide_eq_true second)))
    (fun a b => by simpa using String.le_total (key a) (key b)) xs
  exact sorted.imp fun le => of_decide_eq_true le

theorem mergeSort_ascending (key : α → String) (xs : List α) (once : (xs.map key).Nodup) :
    (xs.mergeSort fun a b => decide (key a ≤ key b)).Pairwise fun a b => key a < key b := by
  have same := (List.mergeSort_perm xs fun a b => decide (key a ≤ key b)).map key
  have differ := List.pairwise_map.mp (same.nodup_iff.mpr once)
  exact ((mergeSort_sorted key xs).and differ).imp fun ⟨le, ne⟩ => Std.lt_of_le_of_ne le ne

theorem forall₂_mergeSort {β : Type} {R : α → β → Prop} {le : α → α → Bool} {le' : β → β → Bool}
    (alike : ∀ a b c d, R a b → R c d → le a c = le' b d) {xs : List α} {ys : List β}
    (related : List.Forall₂ R xs ys) : List.Forall₂ R (xs.mergeSort le) (ys.mergeSort le') := by
  obtain ⟨length, pairs⟩ := List.forall₂_iff_zip.mp related
  have own : ∀ p ∈ xs.zip ys, R p.1 p.2 := fun p member => pairs member
  have first : ((xs.zip ys).mergeSort fun p q => le p.1 q.1).map Prod.fst = xs.mergeSort le := by
    rw [List.map_mergeSort (s := le) fun _ _ _ _ => rfl, List.map_fst_zip (Nat.le_of_eq length)]
  have second : ((xs.zip ys).mergeSort fun p q => le p.1 q.1).map Prod.snd = ys.mergeSort le' := by
    have order : ∀ p ∈ xs.zip ys, ∀ q ∈ xs.zip ys, le p.1 q.1 = le' p.2 q.2 :=
      fun p here q there => alike _ _ _ _ (own p here) (own q there)
    rw [List.map_mergeSort order, List.map_snd_zip (Nat.le_of_eq length.symm)]
  rw [← first, ← second, List.forall₂_map_left_iff, List.forall₂_map_right_iff, List.forall₂_same]
  exact fun p member => own p (List.mem_mergeSort.mp member)

/-! ### Sorting that evaluates -/

theorem mergeBy_eq (le : α → α → Bool) (xs ys : List α) : mergeBy le xs ys = xs.merge ys le := by
  fun_induction mergeBy le xs ys with
  | case1 ys => rw [List.nil_merge]
  | case2 x xs => rw [List.merge_right]
  | case3 x xs y ys before ih => rw [List.cons_merge_cons_pos _ _ _ before, ih]
  | case4 x xs y ys after ih => rw [List.cons_merge_cons_neg _ _ _ after, ih]

@[simp] theorem sortBy_eq (le : α → α → Bool) (xs : List α) : sortBy le xs = xs.mergeSort le := by
  fun_induction sortBy le xs with
  | case1 => rw [List.mergeSort_nil]
  | case2 x => rw [List.mergeSort_singleton]
  | case3 x y rest half front back =>
    rw [front, back, mergeBy_eq, List.mergeSort]
    simp [List.MergeSort.Internal.splitInTwo, List.splitAt_eq, half]

end DataReach
