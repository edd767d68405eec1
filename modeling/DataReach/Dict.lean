/-! Finite maps as lists of pairs, one per key, in the order in which the keys first came. -/

namespace DataReach

abbrev Dict (κ α : Type) := List (κ × α)

namespace Dict

variable {κ α : Type} [DecidableEq κ]

def get? (d : Dict κ α) (k : κ) : Option α :=
  List.lookup k d

def contains (d : Dict κ α) (k : κ) : Bool :=
  (d.get? k).isSome

def alter (d : Dict κ α) (k : κ) (f : Option α → α) : Dict κ α :=
  match d with
  | [] => [(k, f none)]
  | (k', v) :: rest => if k' = k then (k', f (some v)) :: rest else (k', v) :: alter rest k f

def insert (d : Dict κ α) (k : κ) (v : α) : Dict κ α :=
  d.alter k fun _ => v

def erase (d : Dict κ α) (k : κ) : Dict κ α :=
  d.filter fun p => p.1 ≠ k

def keys (d : Dict κ α) : List κ :=
  d.map (·.1)

def values (d : Dict κ α) : List α :=
  d.map (·.2)

@[simp] theorem get?_nil (k : κ) : get? ([] : Dict κ α) k = none := rfl

theorem get?_cons (key : κ) (v : α) (d : Dict κ α) (k : κ) :
    get? ((key, v) :: d) k = if k = key then some v else d.get? k := by
  by_cases same : k = key
  · simp [get?, same]
  · have differs : (k == key) = false := beq_false_of_ne same
    simp [get?, List.lookup_cons, same, differs]

theorem get?_alter (d : Dict κ α) (key : κ) (f : Option α → α) (k : κ) :
    (d.alter key f).get? k = if k = key then some (f (d.get? key)) else d.get? k := by
  induction d with
  | nil => simp [alter, get?_cons]
  | cons entry rest ih =>
    obtain ⟨first, v⟩ := entry
    by_cases here : first = key
    · subst here
      by_cases same : k = first <;> simp [alter, get?_cons, same]
    · have other : key ≠ first := Ne.symm here
      simp only [alter, here, if_false, get?_cons, ih, other]
      by_cases same : k = key
      · simp [same, other]
      · simp [same]

theorem get?_insert (d : Dict κ α) (key : κ) (v : α) (k : κ) :
    (d.insert key v).get? k = if k = key then some v else d.get? k :=
  get?_alter d key (fun _ => v) k

theorem get?_erase (d : Dict κ α) (key k : κ) :
    (d.erase key).get? k = if k = key then none else d.get? k := by
  induction d with
  | nil => simp [erase]
  | cons entry rest ih =>
    obtain ⟨first, v⟩ := entry
    rw [erase] at ih ⊢
    by_cases here : first = key
    · subst here
      simp only [ne_eq, not_true_eq_false, decide_false, Bool.false_eq_true, not_false_eq_true,
        List.filter_cons_of_neg, ih, get?_cons]
      split <;> rfl
    · simp only [ne_eq, here, not_false_eq_true, decide_true, List.filter_cons_of_pos, get?_cons,
        ih]
      by_cases same : k = key
      · have other : key ≠ first := Ne.symm here
        simp [same, other]
      · simp [same]

theorem get?_eq_none_iff (d : Dict κ α) (k : κ) : d.get? k = none ↔ k ∉ d.keys := by
  induction d with
  | nil => simp [keys]
  | cons entry rest ih =>
    obtain ⟨first, v⟩ := entry
    by_cases same : k = first
    · simp [get?_cons, keys, same]
    · simpa [get?_cons, keys, same] using ih

theorem mem_of_get? {d : Dict κ α} {k : κ} {v : α} (found : d.get? k = some v) : (k, v) ∈ d := by
  induction d with
  | nil => cases found
  | cons entry rest ih =>
    obtain ⟨first, w⟩ := entry
    rw [get?_cons] at found
    split at found
    · next same =>
      cases found
      exact same ▸ List.mem_cons_self ..
    · exact List.mem_cons_of_mem _ (ih found)

theorem get?_of_mem {d : Dict κ α} {k : κ} {v : α} (once : d.keys.Nodup) (member : (k, v) ∈ d) :
    d.get? k = some v := by
  induction d with
  | nil => cases member
  | cons entry rest ih =>
    obtain ⟨first, w⟩ := entry
    obtain ⟨fresh, once⟩ := List.nodup_cons.mp once
    rw [get?_cons]
    rcases List.mem_cons.mp member with same | later
    · cases same
      exact if_pos rfl
    · have other : k ≠ first := by
        rintro rfl
        exact fresh (List.mem_map.mpr ⟨(k, v), later, rfl⟩)
      rw [if_neg other]
      exact ih once later

theorem keys_alter (d : Dict κ α) (key : κ) (f : Option α → α) :
    (d.alter key f).keys = if key ∈ d.keys then d.keys else d.keys ++ [key] := by
  induction d with
  | nil => simp [alter, keys]
  | cons entry rest ih =>
    obtain ⟨first, v⟩ := entry
    by_cases here : first = key
    · simp [alter, keys, here]
    · have other : key ≠ first := Ne.symm here
      have tail := ih
      simp only [keys] at tail ⊢
      simp only [alter, here, if_false, List.map_cons, tail, List.mem_cons, other, false_or]
      by_cases present : key ∈ rest.map (·.1)
      · simp only [present, if_true]
      · simp only [present, if_false, List.cons_append]

theorem nodup_keys_alter (d : Dict κ α) (key : κ) (f : Option α → α) (once : d.keys.Nodup) :
    (d.alter key f).keys.Nodup := by
  rw [keys_alter]
  split
  · exact once
  · next fresh =>
    rw [List.nodup_append]
    refine ⟨once, by simp, fun a member b single same => fresh ?_⟩
    rw [List.mem_singleton] at single
    exact single ▸ same ▸ member

theorem mem_insert {d : Dict κ α} {key : κ} {v : α} {entry : κ × α}
    (member : entry ∈ d.insert key v) : entry ∈ d ∨ entry = (key, v) := by
  induction d with
  | nil => exact .inr (List.mem_singleton.mp member)
  | cons first rest ih =>
    obtain ⟨k, w⟩ := first
    simp only [insert, alter] at member ih
    split at member
    · next same =>
      rcases List.mem_cons.mp member with here | later
      · exact .inr (same ▸ here)
      · exact .inl (List.mem_cons_of_mem _ later)
    · rcases List.mem_cons.mp member with here | later
      · exact .inl (here ▸ List.mem_cons_self ..)
      · exact (ih later).imp_left (List.mem_cons_of_mem _)

end Dict

end DataReach
