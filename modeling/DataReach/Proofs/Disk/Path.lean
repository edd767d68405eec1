import DataReach.Disk.Path
import Mathlib.Data.List.Basic
/-! The names of a path that is put together from a base and the name of an entry. -/

namespace DataReach

def FileName.Proper (x : FileName) : Prop := 2 < x.text.toList.length

namespace Path

theorem pieces_ne_nil (cs : List Char) : pieces cs ≠ [] := by
  cases cs with
  | nil => simp [pieces]
  | cons c rest =>
    rw [pieces]
    split
    · simp
    · split <;> simp

theorem pieces_plain {cs : List Char} (plain : '/' ∉ cs) : pieces cs = [cs] := by
  induction cs with
  | nil => rfl
  | cons c rest ih =>
    simp only [List.mem_cons, not_or] at plain
    rw [pieces, if_neg (Ne.symm plain.1), ih plain.2]

theorem pieces_slash (front back : List Char) :
    pieces (front ++ '/' :: back) = pieces front ++ pieces back := by
  induction front with
  | nil => simp [pieces]
  | cons c rest ih =>
    rw [List.cons_append, pieces, pieces]
    split
    · rw [ih, List.cons_append]
    · rw [ih]
      cases found : pieces rest with
      | nil => exact absurd found (pieces_ne_nil rest)
      | cons p ps => rfl

theorem isName_of_proper {x : FileName} (proper : x.Proper) : isName x.text.toList = true := by
  have some : x.text.toList ≠ [] := by
    intro none
    simp [FileName.Proper, none] at proper
  have more : x.text.toList ≠ ['.'] := by
    intro dot
    simp [FileName.Proper, dot] at proper
  simp [isName, some, more]

theorem not_isAbsolute (x : FileName) : isAbsolute x.text = false := by
  have plain := x.plain
  rw [isAbsolute]
  cases chars : x.text.toList with
  | nil => rfl
  | cons c rest =>
    rw [chars] at plain
    simp only [List.mem_cons, not_or] at plain
    simpa using Ne.symm plain.1

theorem pieces_join (base : String) {x : FileName} :
    ∃ front, pieces (join base x.text).toList = front ++ [x.text.toList] ∧
      front.filter isName = (pieces base.toList).filter isName := by
  rw [join, not_isAbsolute, if_neg Bool.false_ne_true]
  by_cases empty : base.isEmpty
  · refine ⟨[], ?_, ?_⟩
    · have nothing : base = "" := by simpa using empty
      simp [nothing, pieces_plain x.plain]
    · have nothing : base = "" := by simpa using empty
      simp [nothing, pieces, isName]
  · by_cases slashed : base.toList.getLast? = some '/'
    · rcases List.getLast?_eq_some_iff.mp slashed with ⟨front, split⟩
      refine ⟨pieces front, ?_, ?_⟩
      · simp [split, pieces_slash, pieces_plain x.plain]
      · simp [split, pieces_slash, pieces, isName]
    · refine ⟨pieces base.toList, ?_, rfl⟩
      simp [empty, slashed, pieces_slash, pieces_plain x.plain]

theorem names_join (base : String) {x : FileName} (proper : x.Proper) :
    names (join base x.text) = names base ++ [x.text] := by
  rcases @pieces_join base x with ⟨front, split, same⟩
  rw [names, names, split, List.filter_append, same]
  simp [isName_of_proper proper]

theorem steps_join (base : String) {x : FileName} (proper : x.Proper) :
    steps (join base x.text) = steps base ++ [x] := by
  have texts : ∀ path, (steps path).map (·.text) = names path := by
    intro path
    simp [steps, List.map_pmap]
  have injective : Function.Injective FileName.text := by
    intro a b same
    cases a
    cases b
    cases same
    rfl
  apply List.map_injective_iff.mpr injective
  rw [List.map_append, texts, texts, names_join base proper]
  rfl

theorem not_meansDirectory_join (base : String) {x : FileName} (proper : x.Proper) :
    meansDirectory (join base x.text) = false := by
  rcases @pieces_join base x with ⟨front, split, -⟩
  simp [meansDirectory, split, isName_of_proper proper]

theorem join_append (base : String) {x y : FileName} {suffix : String}
    (same : y.text = x.text ++ suffix) : join base x.text ++ suffix = join base y.text := by
  rw [join, join, not_isAbsolute, not_isAbsolute, same]
  simp only [Bool.false_eq_true, if_false]
  split <;> simp [String.append_assoc]

end Path

end DataReach
