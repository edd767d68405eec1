/-! Lists without repetitions. -/

namespace DataReach

def distinctBy [BEq κ] (key : α → κ) : List α → List α
  | [] => []
  | a :: rest => a :: (distinctBy key rest).filter fun b => key b != key a

def distinct [BEq α] (xs : List α) : List α := distinctBy id xs

theorem distinctBy_sublist [BEq κ] (key : α → κ) (xs : List α) : (distinctBy key xs).Sublist xs := by
  induction xs with
  | nil => exact .slnil
  | cons a rest ih => exact (List.filter_sublist.trans ih).cons_cons a

theorem nodup_keys_distinctBy [BEq κ] [LawfulBEq κ] (key : α → κ) (xs : List α) :
    ((distinctBy key xs).map key).Nodup := by
  induction xs with
  | nil => exact List.nodup_nil
  | cons a rest ih =>
    refine List.nodup_cons.mpr ⟨fun again => ?_, ih.sublist (List.filter_sublist.map key)⟩
    obtain ⟨b, member, same⟩ := List.mem_map.mp again
    have other := (List.mem_filter.mp member).2
    simp [same] at other

theorem key_mem_distinctBy [BEq κ] [LawfulBEq κ] (key : α → κ) {xs : List α} {a : α}
    (member : a ∈ xs) : key a ∈ (distinctBy key xs).map key := by
  induction xs with
  | nil => cases member
  | cons first rest ih =>
    by_cases here : key a = key first
    · exact here ▸ List.mem_cons_self ..
    · rcases List.mem_cons.mp member with rfl | later
      · exact absurd rfl here
      · obtain ⟨b, found, same⟩ := List.mem_map.mp (ih later)
        have kept : b ∈ (distinctBy key rest).filter fun c => key c != key first :=
          List.mem_filter.mpr ⟨found, by simp [same, here]⟩
        exact List.mem_cons_of_mem _ (List.mem_map.mpr ⟨b, kept, same⟩)

theorem distinctBy_of_nodup [BEq κ] [LawfulBEq κ] {key : α → κ} {xs : List α}
    (once : (xs.map key).Nodup) : distinctBy key xs = xs := by
  induction xs with
  | nil => rfl
  | cons x rest ih =>
    obtain ⟨fresh, once⟩ := List.nodup_cons.mp once
    rw [distinctBy, ih once, List.filter_eq_self.mpr]
    intro y member
    have other : key y ≠ key x := fun same => fresh (List.mem_map.mpr ⟨y, member, same⟩)
    simpa using other

theorem distinct_cons [BEq α] (x : α) (xs : List α) :
    distinct (x :: xs) = x :: (distinct xs).filter (· != x) := rfl

section Distinct

variable [BEq α] [LawfulBEq α] {xs : List α}

theorem mem_distinct {x : α} : x ∈ distinct xs ↔ x ∈ xs := by
  constructor
  · intro member
    exact (distinctBy_sublist _ _).subset member
  · intro member
    simpa [distinct] using key_mem_distinctBy id member

theorem nodup_distinct (xs : List α) : (distinct xs).Nodup := by
  simpa [distinct] using nodup_keys_distinctBy id xs

theorem distinct_of_nodup (once : xs.Nodup) : distinct xs = xs :=
  distinctBy_of_nodup (by rwa [List.map_id])

theorem distinct_append_new {x : α} (fresh : x ∉ xs) :
    distinct (xs ++ [x]) = distinct xs ++ [x] := by
  induction xs with
  | nil => rfl
  | cons first rest ih =>
    obtain ⟨other, fresh⟩ := not_or.mp (mt List.mem_cons.mpr fresh)
    simp [distinct_cons, ih fresh, other]

theorem distinct_append_old {x : α} (member : x ∈ xs) : distinct (xs ++ [x]) = distinct xs := by
  induction xs with
  | nil => cases member
  | cons first rest ih =>
    rw [List.cons_append, distinct_cons, distinct_cons]
    by_cases later : x ∈ rest
    · rw [ih later]
    · obtain rfl := (List.mem_cons.mp member).resolve_right later
      simp [distinct_append_new later]

end Distinct

theorem find?_of_nodup_keys [BEq κ] [LawfulBEq κ] {key : α → κ} {xs : List α} {a : α}
    (once : (xs.map key).Nodup) (member : a ∈ xs) : xs.find? (fun b => key b == key a) = some a := by
  induction xs with
  | nil => cases member
  | cons first rest ih =>
    obtain ⟨fresh, once⟩ := List.nodup_cons.mp once
    rcases List.mem_cons.mp member with rfl | later
    · simp
    · have other : key first ≠ key a := fun same =>
        fresh (List.mem_map.mpr ⟨a, later, same.symm⟩)
      rw [List.find?_cons_of_neg (by simpa using other)]
      exact ih once later

end DataReach
