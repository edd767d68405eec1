import DataReach.Function
import Mathlib.Algebra.BigOperators.Group.List.Basic
import Mathlib.Algebra.GroupWithZero.Nat
/-!
Counts summed over lists. The words that count in the answers start again after the greatest one, so
they tell a sum up to multiples of their size.
-/

namespace DataReach

variable {α β : Type} {count : α → Nat} {xs : List α}

theorem total_eq_sum (count : α → Nat) (xs : List α) : total count xs = (xs.map count).sum := by
  induction xs with
  | nil => rfl
  | cons x rest ih => rw [total, ih, List.map_cons, List.sum_cons]

theorem total_map (count : β → Nat) (f : α → β) (xs : List α) :
    total count (xs.map f) = total (fun a => count (f a)) xs := by
  rw [total_eq_sum, total_eq_sum, List.map_map]
  rfl

theorem total_one (xs : List α) : total (fun _ => 1) xs = xs.length := by
  simp [total_eq_sum]

theorem total_append (xs ys : List α) : total count (xs ++ ys) = total count xs + total count ys := by
  rw [total_eq_sum, total_eq_sum, total_eq_sum, List.map_append, List.sum_append]

theorem total_flatMap (count : β → Nat) (f : α → List β) (xs : List α) :
    total count (xs.flatMap f) = total (fun a => total count (f a)) xs := by
  induction xs with
  | nil => rfl
  | cons x rest ih =>
    rw [List.flatMap_cons, total_append, ih, total]

theorem total_le {part whole : α → Nat} (within : ∀ x, part x ≤ whole x) (xs : List α) :
    total part xs ≤ total whole xs := by
  induction xs with
  | nil => exact Nat.le_refl 0
  | cons x rest ih => exact Nat.add_le_add (within x) ih

theorem total_perm {ys : List α} (same : xs.Perm ys) : total count xs = total count ys := by
  rw [total_eq_sum, total_eq_sum, (same.map count).sum_eq]

theorem wordTotal_map (count : β → Nat) (f : α → β) (xs : List α) :
    wordTotal count (xs.map f) = wordTotal (fun a => count (f a)) xs :=
  List.foldl_map

theorem wordTotal_eq (count : α → Nat) (xs : List α) :
    wordTotal count xs = .ofNat (total count xs) := by
  have from_sum : ∀ n, xs.foldl (fun sum x => sum + .ofNat (count x)) (UInt32.ofNat n) =
      .ofNat (n + total count xs) := by
    induction xs with
    | nil => exact fun n => rfl
    | cons x rest ih =>
      intro n
      rw [List.foldl_cons, ← UInt32.ofNat_add, ih, total, Nat.add_assoc]
  rw [← Nat.zero_add (total count xs)]
  exact from_sum 0

theorem toNat_wordTotal (count : α → Nat) (xs : List α) :
    (wordTotal count xs).toNat = total count xs % UInt32.size := by
  rw [wordTotal_eq, UInt32.toNat_ofNat']

theorem toNat_wordTotal_one (xs : List α) :
    (wordTotal (fun _ => 1) xs).toNat = xs.length % UInt32.size := by
  rw [toNat_wordTotal, total_one]

end DataReach
