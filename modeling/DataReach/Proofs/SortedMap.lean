import DataReach.Dict
import DataReach.Proofs.Sorting
import DataReach.SortedMap
import Mathlib.Logic.Function.Basic
/-!
Sorted maps: looking up, putting in and taking out. When keys of one kind are told apart no further,
the entry with the greatest of them is the one that counts in the end.
-/

namespace DataReach

namespace SortedMap

variable {α : Type}

def erase (m : SortedMap α) (key : String) : SortedMap α :=
  ⟨Dict.erase m.entries key, m.sorted.sublist List.filter_sublist⟩

def keys (m : SortedMap α) : List String := Dict.keys m.entries

def values (m : SortedMap α) : List α := Dict.values m.entries

def size (m : SortedMap α) : Nat := m.entries.length

theorem lookup_place (key : String) (v : α) (es : Dict String α) (k : String) :
    Dict.get? (place key v es) k = if k = key then some v else es.get? k := by
  induction es with
  | nil => simp [place, Dict.get?_cons]
  | cons e rest ih =>
    rcases e with ⟨first, w⟩
    rw [place]
    split
    · rw [Dict.get?_cons]
    · next notBelow =>
      split
      · next same =>
        subst same
        simp only [Dict.get?_cons]
        split <;> rfl
      · next other =>
        rw [Dict.get?_cons, ih, Dict.get?_cons]
        by_cases own : k = key
        · subst own
          rw [if_neg other, if_pos rfl, if_pos rfl]
        · rw [if_neg own, if_neg own]

theorem get?_insert (m : SortedMap α) (key : String) (v : α) :
    (m.insert key v).get? = Function.update m.get? key (some v) := by
  funext k
  refine (lookup_place key v m.entries k).trans ?_
  rw [Function.update_apply]
  rfl

theorem get?_erase (m : SortedMap α) (key : String) :
    (m.erase key).get? = Function.update m.get? key none := by
  funext k
  refine (Dict.get?_erase m.entries key k).trans ?_
  rw [Function.update_apply]
  rfl

theorem keys_ascending (m : SortedMap α) : m.keys.Pairwise (· < ·) :=
  List.pairwise_map.mpr m.sorted

theorem keys_once (m : SortedMap α) : (Dict.keys m.entries).Nodup :=
  m.keys_ascending.imp fun less => String.ne_of_lt less

theorem mem_keys (m : SortedMap α) (k : String) : k ∈ m.keys ↔ m.get? k ≠ none := by
  rw [Ne, get?, ← Dict.get?, Dict.get?_eq_none_iff, not_not]
  rfl

theorem length_keys (m : SortedMap α) : m.keys.length = m.size := List.length_map _

theorem length_values (m : SortedMap α) : m.values.length = m.size := List.length_map _

theorem filterMap_keys (m : SortedMap α) : m.keys.filterMap m.get? = m.values := by
  rw [keys, Dict.keys, List.filterMap_map, values, Dict.values, ← List.filterMap_eq_map]
  apply List.filterMap_congr
  intro e member
  exact Dict.get?_of_mem m.keys_once member

theorem mem_entries {m : SortedMap α} {e : String × α} : e ∈ m.entries ↔ m.get? e.1 = some e.2 :=
  ⟨Dict.get?_of_mem m.keys_once, Dict.mem_of_get?⟩

theorem get?_insertAll (m : SortedMap α) {es : Dict String α} (once : es.keys.Nodup) (k : String) :
    (m.insertAll es).get? k = (es.get? k).or (m.get? k) := by
  induction es generalizing m with
  | nil => rfl
  | cons e rest ih =>
    obtain ⟨fresh, others⟩ := List.nodup_cons.mp once
    calc ((m.insert e.1 e.2).insertAll rest).get? k
      _ = (Dict.get? rest k).or ((m.insert e.1 e.2).get? k) := ih (m.insert e.1 e.2) others
      _ = (Dict.get? (e :: rest) k).or (m.get? k) := by
        rw [get?_insert, Dict.get?_cons]
        by_cases own : k = e.1
        · rw [own, (Dict.get?_eq_none_iff rest e.1).mpr fresh, Function.update_self, if_pos rfl]
          rfl
        · rw [Function.update_of_ne own, if_neg own]

theorem mem_insertAll {m other : SortedMap α} {e : String × α} :
    e ∈ (m.insertAll other.entries).entries ↔
      e ∈ other.entries ∨ e.1 ∉ other.keys ∧ e ∈ m.entries := by
  rw [mem_entries, get?_insertAll m other.keys_once, mem_entries, mem_entries, mem_keys, not_not]
  change (other.get? e.1).or (m.get? e.1) = _ ↔ _
  cases other.get? e.1 with
  | none => simp
  | some v => simp

theorem mem_keys_insertAll {m other : SortedMap α} {k : String} (member : k ∈ other.keys) :
    k ∈ (m.insertAll other.entries).keys := by
  obtain ⟨e, inside, rfl⟩ := List.mem_map.mp member
  exact List.mem_map_of_mem (mem_insertAll.mpr (.inl inside))

theorem ext_entries {m other : SortedMap α} (same : ∀ e, e ∈ m.entries ↔ e ∈ other.entries) :
    m = other := by
  have irrefl : Std.Irrefl fun a b : String × α => a.1 < b.1 := ⟨fun a => String.lt_irrefl a.1⟩
  have entries := m.sorted.eq_of_mem_iff other.sorted same
  cases m
  cases other
  cases entries
  rfl

theorem ext_get? {m other : SortedMap α} (same : ∀ k, m.get? k = other.get? k) : m = other :=
  ext_entries fun e => by rw [mem_entries, mem_entries, same]

theorem insertAll_empty (m : SortedMap α) : empty.insertAll m.entries = m := by
  apply ext_entries
  intro e
  rw [mem_insertAll]
  simp [empty]

/-! ### The last entry of a kind -/

def last? (p : String → Bool) (m : SortedMap α) : Option (String × α) :=
  m.entries.reverse.find? fun e => p e.1

section Last

variable {p : String → Bool} {m other : SortedMap α} {e a : String × α}

theorem find?_descending {es : List (String × α)} (descending : es.Pairwise fun a b => b.1 < a.1) :
    es.find? (fun e => p e.1) = some e ↔
      e ∈ es ∧ p e.1 = true ∧ ∀ o ∈ es, p o.1 = true → o.1 ≤ e.1 := by
  constructor
  · intro found
    have own : p e.1 = true := by simpa using List.find?_some found
    refine ⟨List.mem_of_find?_eq_some found, own, fun o member wanted => ?_⟩
    rcases find?_sorted descending found member wanted with rfl | below
    · exact String.le_refl _
    · exact Std.le_of_lt below
  · rintro ⟨member, own, greatest⟩
    have some : (es.find? fun e => p e.1).isSome := List.find?_isSome.mpr ⟨e, member, own⟩
    obtain ⟨a, found⟩ := Option.isSome_iff_exists.mp some
    have kind : p a.1 = true := by simpa using List.find?_some found
    rcases find?_sorted descending found member own with rfl | below
    · exact found
    · have above := greatest a (List.mem_of_find?_eq_some found) kind
      exact absurd below (String.not_lt.mpr above)

theorem last?_eq_some : m.last? p = some e ↔
    e ∈ m.entries ∧ p e.1 = true ∧ ∀ o ∈ m.entries, p o.1 = true → o.1 ≤ e.1 := by
  rw [last?, find?_descending (List.pairwise_reverse.mpr m.sorted)]
  simp only [List.mem_reverse]

theorem last?_isSome {k : String} (member : k ∈ m.keys) (kind : p k = true) :
    ∃ e, m.last? p = some e := by
  obtain ⟨e, inside, rfl⟩ := List.mem_map.mp member
  apply Option.isSome_iff_exists.mp
  rw [last?, List.find?_isSome]
  exact ⟨e, List.mem_reverse.mpr inside, kind⟩

theorem last?_eq_none : m.last? p = none ↔ ∀ o ∈ m.entries, p o.1 = false := by
  simp [last?]

theorem last?_merged (member : e ∈ (m.insertAll other.entries).entries) (kind : p e.1 = true)
    (new : ∀ o ∈ other.entries, p o.1 = true → o.1 ≤ e.1)
    (old : ∀ o ∈ m.entries, p o.1 = true → o.1 ≤ e.1) :
    (m.insertAll other.entries).last? p = some e := by
  refine last?_eq_some.mpr ⟨member, kind, fun o inside => ?_⟩
  exact (mem_insertAll.mp inside).elim (new o) fun rest => old o rest.2

theorem last?_insertAll (own : other.last? p = some a) :
    (m.insertAll other.entries).last? p =
      match m.last? p with
      | some b => if a.1 < b.1 then some b else some a
      | none => some a := by
  obtain ⟨inside, kind, greatest⟩ := last?_eq_some.mp own
  cases base : m.last? p with
  | none =>
    rw [last?_eq_none] at base
    apply last?_merged (mem_insertAll.mpr (.inl inside)) kind greatest
    intro o member wanted
    rw [base o member] at wanted
    cases wanted
  | some b =>
    obtain ⟨inside', kind', greatest'⟩ := last?_eq_some.mp base
    by_cases above : a.1 < b.1
    · have fresh : b.1 ∉ other.keys := by
        intro listed
        obtain ⟨o, member, same⟩ := List.mem_map.mp listed
        have below := greatest o member (same ▸ kind')
        exact absurd above (String.not_lt.mpr (same ▸ below))
      have later : ∀ o ∈ other.entries, p o.1 = true → o.1 ≤ b.1 := fun o member wanted =>
        Std.le_of_lt (Std.lt_of_le_of_lt (greatest o member wanted) above)
      simp only [if_pos above]
      exact last?_merged (mem_insertAll.mpr (.inr ⟨fresh, inside'⟩)) kind' later greatest'
    · have later : ∀ o ∈ m.entries, p o.1 = true → o.1 ≤ a.1 := fun o member wanted =>
        String.le_trans (greatest' o member wanted) (String.not_lt.mp above)
      simp only [if_neg above]
      exact last?_merged (mem_insertAll.mpr (.inl inside)) kind greatest later

end Last

end SortedMap

end DataReach
