import DataReach.Dict
import Mathlib.Data.List.Induction
/-!
Tables that keep the item of a shortest offer for each key. Of offers that are equally short the first
one stays.
-/

namespace DataReach

variable {κ α β : Type}

/-- Among the offers for its key this one is shortest, and those before it are longer. -/
structure FirstShortest (key : α → κ) (size : α → Nat) (offers : List α) (a : α) : Prop where
  offered : a ∈ offers
  shortest : ∀ b ∈ offers, key b = key a → size a ≤ size b
  first : ∃ front back, offers = front ++ a :: back ∧ ∀ b ∈ front, key b = key a → size a < size b

section FirstShortest

variable {key : α → κ} {size : α → Nat} {offers : List α} {a p : α}

theorem FirstShortest.append (best : FirstShortest key size offers a)
    (longer : key p = key a → size a ≤ size p) : FirstShortest key size (offers ++ [p]) a where
  offered := List.mem_append_left _ best.offered
  shortest := by
    intro b member same
    rcases List.mem_append.mp member with before | last
    · exact best.shortest b before same
    · rw [List.mem_singleton.mp last] at same ⊢
      exact longer same
  first := by
    obtain ⟨front, back, split, above⟩ := best.first
    exact ⟨front, back ++ [p], by simp [split], above⟩

theorem FirstShortest.last (shorter : ∀ b ∈ offers, key b = key p → size p < size b) :
    FirstShortest key size (offers ++ [p]) p where
  offered := by simp
  shortest := by
    intro b member same
    rcases List.mem_append.mp member with before | last
    · exact Nat.le_of_lt (shorter b before same)
    · exact Nat.le_of_eq (congrArg size (List.mem_singleton.mp last).symm)
  first := ⟨offers, [], rfl, shorter⟩

end FirstShortest

namespace Dict

variable [DecidableEq κ]

/-- Takes an offer for a key, unless one at least as short is there. -/
def keepShorter (size : α → Nat) (best : Dict κ α) (k : κ) (a : α) : Dict κ α :=
  match best.get? k with
  | some b => if size a < size b then best.insert k a else best
  | none => best.insert k a

theorem get?_keepShorter (size : α → Nat) (best : Dict κ α) (key : κ) (a : α) (k : κ) :
    (best.keepShorter size key a).get? k = if k = key then
        match best.get? k with
        | some b => if size a < size b then some a else some b
        | none => some a
      else best.get? k := by
  rw [keepShorter]
  by_cases same : k = key
  · subst same
    cases known : best.get? k with
    | none => simp [get?_insert]
    | some b => by_cases shorter : size a < size b <;> simp [shorter, get?_insert, known]
  · cases known : best.get? key with
    | none => simp [same, get?_insert]
    | some b => by_cases shorter : size a < size b <;> simp [shorter, same, get?_insert]

theorem nodup_keys_keepShorter {size : α → Nat} {best : Dict κ α} {k : κ} {a : α}
    (once : best.keys.Nodup) : (best.keepShorter size k a).keys.Nodup := by
  have inserted : (best.insert k a).keys.Nodup := nodup_keys_alter _ _ _ once
  rw [keepShorter]
  split
  · split
    · exact inserted
    · exact once
  · exact inserted

def shortestOf (key : β → κ) (item : β → α) (size : α → Nat) (offers : List β) : Dict κ α :=
  offers.foldl (fun best b => best.keepShorter size (key b) (item b)) []

section ShortestOf

variable {key : β → κ} {item : β → α} {size : α → Nat} {offers : List β} {a : α} {p : β} {k : κ}

theorem shortestOf_append (offers : List β) (p : β) :
    shortestOf key item size (offers ++ [p]) =
      (shortestOf key item size offers).keepShorter size (key p) (item p) := by
  simp [shortestOf]

theorem nodup_keys_shortestOf : (shortestOf key item size offers).keys.Nodup := by
  induction offers using List.reverseRecOn with
  | nil => exact List.nodup_nil
  | append_singleton front p ih =>
    rw [shortestOf_append]
    exact nodup_keys_keepShorter ih

/-- What the table has for a key: nothing without an offer, else the first of the shortest. -/
theorem get?_shortestOf (k : κ) :
    match (shortestOf key item size offers).get? k with
    | none => ∀ b ∈ offers, key b ≠ k
    | some a => ∃ b, key b = k ∧ item b = a ∧ FirstShortest key (size <| item ·) offers b := by
  induction offers using List.reverseRecOn with
  | nil =>
    intro b member
    cases member
  | append_singleton front p ih =>
    rw [shortestOf_append, get?_keepShorter]
    by_cases own : k = key p
    · subst own
      cases known : (shortestOf key item size front).get? (key p) with
      | none =>
        simp only [known] at ih
        have fresh : ∀ b ∈ front, key b = key p → size (item p) < size (item b) :=
          fun b before same => absurd same (ih b before)
        simpa using ⟨p, rfl, rfl, @FirstShortest.last _ _ key (size <| item ·) front p fresh⟩
      | some a =>
        simp only [known] at ih
        obtain ⟨q, same, rfl, best⟩ := ih
        by_cases shorter : size (item p) < size (item q)
        · have below : ∀ b ∈ front, key b = key p → size (item p) < size (item b) := by
            intro b before own
            have bound := best.shortest b before (own.trans same.symm)
            omega
          simpa [shorter] using
            ⟨p, rfl, rfl, @FirstShortest.last _ _ key (size <| item ·) front p below⟩
        · have kept := best.append fun _ => Nat.le_of_not_lt shorter
          simpa [shorter] using ⟨q, same, rfl, kept⟩
    · cases known : (shortestOf key item size front).get? k with
      | none =>
        simp only [known] at ih
        simp only [own, if_false]
        intro b member
        rcases List.mem_append.mp member with before | last
        · exact ih b before
        · rw [List.mem_singleton.mp last]
          exact Ne.symm own
      | some a =>
        simp only [known] at ih
        obtain ⟨q, same, taken, best⟩ := ih
        have kept := @FirstShortest.append _ _ _ _ _ _ p best fun other =>
          absurd (other.trans same).symm own
        simpa [own] using ⟨q, same, taken, kept⟩

theorem exists_of_get?_shortestOf (found : (shortestOf key item size offers).get? k = some a) :
    ∃ b, key b = k ∧ item b = a ∧ FirstShortest key (size <| item ·) offers b := by
  have kept := @get?_shortestOf _ _ _ _ key item size offers k
  rwa [found] at kept

theorem get?_shortestOf_isSome (offered : p ∈ offers) :
    ∃ a, (shortestOf key item size offers).get? (key p) = some a := by
  have kept := @get?_shortestOf _ _ _ _ key item size offers (key p)
  cases found : (shortestOf key item size offers).get? (key p) with
  | none =>
    rw [found] at kept
    exact absurd rfl (kept p offered)
  | some a => exact ⟨a, rfl⟩

end ShortestOf

/-! ### Whole offers as items -/

section Whole

variable {key : α → κ} {size : α → Nat} {offers : List α} {a p : α}

theorem mem_values_shortestOf (member : a ∈ (shortestOf key id size offers).values) :
    (shortestOf key id size offers).get? (key a) = some a ∧ FirstShortest key size offers a := by
  obtain ⟨⟨k, b⟩, entry, same⟩ := List.mem_map.mp member
  have found := get?_of_mem nodup_keys_shortestOf entry
  obtain ⟨b, rfl, rfl, best⟩ := exists_of_get?_shortestOf found
  cases same
  exact ⟨found, best⟩

theorem exists_shortestOf (offered : p ∈ offers) :
    ∃ a ∈ (shortestOf key id size offers).values, key a = key p := by
  obtain ⟨a, found⟩ := @get?_shortestOf_isSome _ _ _ _ key id size _ _ offered
  obtain ⟨b, same, rfl, -⟩ := exists_of_get?_shortestOf found
  exact ⟨b, List.mem_map.mpr ⟨_, mem_of_get? found, rfl⟩, same⟩

theorem nodup_values_shortestOf :
    ((shortestOf key id size offers).values.map key).Nodup := by
  have same : (shortestOf key id size offers).values.map key =
      (shortestOf key id size offers).keys := by
    rw [values, keys, List.map_map]
    refine List.map_congr_left fun entry member => ?_
    obtain ⟨b, own, taken, -⟩ :=
      exists_of_get?_shortestOf (get?_of_mem nodup_keys_shortestOf member)
    exact (congrArg key taken).symm.trans own
  rw [same]
  exact nodup_keys_shortestOf

theorem get?_shortestOf_filter (key : α → κ) (size : α → Nat) (bound : Nat) (offers : List α)
    (k : κ) :
    (shortestOf key id size (offers.filter fun a => decide (size a ≤ bound))).get? k =
      ((shortestOf key id size offers).get? k).filter fun a => decide (size a ≤ bound) := by
  induction offers using List.reverseRecOn with
  | nil => rfl
  | append_singleton front p ih =>
    rw [List.filter_append, shortestOf_append, get?_keepShorter]
    by_cases kept : size p ≤ bound
    -- An offer within the bound takes the place of any beyond it, on both sides.
    · have one : [p].filter (fun a => decide (size a ≤ bound)) = [p] := by simp [kept]
      rw [one, shortestOf_append, get?_keepShorter, ih]
      by_cases own : k = key p
      · rw [if_pos own, if_pos own]
        cases (shortestOf key id size front).get? k with
        | none => simp [kept, Option.filter_some]
        | some a =>
          by_cases small : size a ≤ bound
          · by_cases shorter : size p < size a <;> simp [small, shorter, kept, Option.filter_some]
          · have shorter : size p < size a := by omega
            simp [small, shorter, kept, Option.filter_some]
      · rw [if_neg own, if_neg own]
    -- One beyond the bound only takes the place of others beyond it.
    · have none : [p].filter (fun a => decide (size a ≤ bound)) = [] := by simp [kept]
      rw [none, List.append_nil, ih]
      by_cases own : k = key p
      · rw [if_pos own]
        cases (shortestOf key id size front).get? k with
        | none => simp [kept, Option.filter_some]
        | some a =>
          by_cases small : size a ≤ bound
          · have longer : ¬ size p < size a := by omega
            simp [small, longer, Option.filter_some]
          · by_cases shorter : size p < size a <;> simp [small, shorter, kept, Option.filter_some]
      · rw [if_neg own]

theorem mem_shortestOf_filter {key : α → κ} {size : α → Nat} {bound : Nat} {offers : List α}
    {a : α} :
    a ∈ (shortestOf key id size (offers.filter fun a => decide (size a ≤ bound))).values ↔
      a ∈ (shortestOf key id size offers).values ∧ size a ≤ bound := by
  have mem_iff : ∀ offers : List α, a ∈ (shortestOf key id size offers).values ↔
      (shortestOf key id size offers).get? (key a) = some a := fun offers =>
    ⟨fun member => (mem_values_shortestOf member).1,
      fun found => List.mem_map.mpr ⟨_, mem_of_get? found, rfl⟩⟩
  rw [mem_iff, mem_iff, get?_shortestOf_filter, Option.filter_eq_some_iff, decide_eq_true_eq]

end Whole

end Dict

end DataReach
