/-! Finite maps from strings, with their keys in ascending order. -/

namespace DataReach

structure SortedMap (α : Type) where
  entries : List (String × α)
  sorted : entries.Pairwise fun a b => a.1 < b.1
  deriving DecidableEq

namespace SortedMap

variable {α : Type}

def empty : SortedMap α := ⟨[], .nil⟩

instance : Inhabited (SortedMap α) := ⟨empty⟩

def place (k : String) (v : α) : List (String × α) → List (String × α)
  | [] => [(k, v)]
  | e :: rest =>
    if k < e.1 then (k, v) :: e :: rest
    else if k = e.1 then (k, v) :: rest
    else e :: place k v rest

theorem key_of_mem_place {k : String} {v : α} {e : String × α} {es : List (String × α)}
    (member : e ∈ place k v es) : e.1 = k ∨ e ∈ es := by
  induction es with
  | nil =>
    simp only [place, List.mem_singleton] at member
    exact .inl (congrArg Prod.fst member)
  | cons head rest ih =>
    simp only [place] at member
    split at member
    · rcases List.mem_cons.mp member with rfl | member
      · exact .inl rfl
      · exact .inr member
    · split at member
      · rcases List.mem_cons.mp member with rfl | member
        · exact .inl rfl
        · exact .inr (List.mem_cons_of_mem _ member)
      · rcases List.mem_cons.mp member with rfl | member
        · exact .inr (List.mem_cons_self ..)
        · exact (ih member).imp_right (List.mem_cons_of_mem _)

theorem place_sorted (k : String) (v : α) {es : List (String × α)}
    (sorted : es.Pairwise fun a b => a.1 < b.1) :
    (place k v es).Pairwise fun a b => a.1 < b.1 := by
  induction es with
  | nil => exact List.pairwise_singleton _ _
  | cons head rest ih =>
    obtain ⟨first, tail⟩ := List.pairwise_cons.mp sorted
    simp only [place]
    split
    · rename_i below
      refine List.pairwise_cons.mpr ⟨fun e member => ?_, sorted⟩
      rcases List.mem_cons.mp member with rfl | member
      · exact below
      · exact String.lt_trans below (first e member)
    · split
      · rename_i same
        exact List.pairwise_cons.mpr ⟨fun e member => same ▸ first e member, tail⟩
      · rename_i notBelow notSame
        refine List.pairwise_cons.mpr ⟨fun e member => ?_, ih tail⟩
        rcases key_of_mem_place member with key | member
        · rw [key]
          exact Std.lt_of_le_of_ne (String.not_lt.mp notBelow) (Ne.symm notSame)
        · exact first e member

def insert (m : SortedMap α) (k : String) (v : α) : SortedMap α :=
  ⟨place k v m.entries, place_sorted k v m.sorted⟩

def get? (m : SortedMap α) (k : String) : Option α := m.entries.lookup k

def insertAll (m : SortedMap α) (es : List (String × α)) : SortedMap α :=
  es.foldl (fun m e => m.insert e.1 e.2) m

def ofList (es : List (String × α)) : SortedMap α := empty.insertAll es

end SortedMap

end DataReach
