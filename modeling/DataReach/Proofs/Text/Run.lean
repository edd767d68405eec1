import DataReach.Text.Segment
import Mathlib.Data.List.Infix
/-!
Runs of whole segments. A name is cut at its underscores, and a word is found in it exactly when its
segments stand there in a row.
-/

namespace DataReach.Text

theorem occursIn_iff {needle text : List Char} :
    occursIn needle text = true ↔ needle <:+: text := by
  induction text with
  | nil => rw [occursIn, List.isEmpty_iff, List.infix_nil]
  | cons c rest ih =>
    rw [occursIn, Bool.or_eq_true, List.isPrefixOf_iff_prefix, ih, List.infix_cons_iff]

def segments (name : List Char) : List (List Char) := name.splitOn '_'

def HasRun (word name : String) : Prop := segments word.toList <:+: segments name.toList

theorem segments_joined (front back : List Char) :
    segments (front ++ '_' :: back) = segments front ++ segments back :=
  List.splitOn_append_cons_self front back

theorem segments_padded (name : List Char) :
    segments ('_' :: name ++ ['_']) = [] :: segments name ++ [[]] := by
  calc segments ('_' :: name ++ ['_'])
      = segments [] ++ segments (name ++ '_' :: []) := segments_joined [] (name ++ ['_'])
    _ = [] :: segments name ++ [[]] := by rw [segments_joined]; rfl

theorem flatMap_eq_intercalate {pieces : List (List Char)} (some : pieces ≠ []) :
    pieces.flatMap ('_' :: ·) = '_' :: ['_'].intercalate pieces := by
  induction pieces with
  | nil => exact absurd rfl some
  | cons first rest ih =>
    by_cases last : rest = []
    · simp [last]
    · rw [List.flatMap_cons, ih last, List.intercalate_cons_of_ne_nil last]
      simp

theorem padded_eq (name : List Char) :
    '_' :: name ++ ['_'] = (segments name).flatMap ('_' :: ·) ++ ['_'] := by
  rw [segments, flatMap_eq_intercalate (List.splitOn_ne_nil '_' name), List.intercalate_splitOn]

/-- A word between underscores stands in a name between underscores just when its segments stand
among those of the name. -/
theorem padded_infix_iff {word name : List Char} :
    '_' :: word ++ ['_'] <:+: '_' :: name ++ ['_'] ↔ segments word <:+: segments name := by
  constructor
  · intro found
    obtain ⟨before, after, whole⟩ := found
    have cut : segments before ++ segments word ++ segments after =
        [] :: segments name ++ [[]] := by
      rw [← segments_padded, ← whole, List.append_assoc, ← segments_joined, ← segments_joined]
      simp
    -- The outermost pieces are those around the padding.
    obtain ⟨first, front, early⟩ := List.exists_cons_of_ne_nil (List.splitOn_ne_nil '_' before)
    obtain ⟨back, last, late⟩ := (List.eq_nil_or_concat (segments after)).resolve_left
      (List.splitOn_ne_nil '_' after)
    have inner : (front ++ segments word ++ back).concat last = (segments name).concat [] := by
      rw [show segments before = first :: front from early, late] at cut
      simpa using (List.cons.inj cut).2
    exact ⟨front, back, (List.concat_inj.mp inner).1⟩
  · intro run
    obtain ⟨before, after, whole⟩ := run
    have opens : ∃ rest, after.flatMap ('_' :: ·) ++ ['_'] = '_' :: rest := by
      cases after with
      | nil => exact ⟨[], rfl⟩
      | cons piece others => exact ⟨_, rfl⟩
    obtain ⟨rest, opens⟩ := opens
    refine ⟨before.flatMap ('_' :: ·), rest, ?_⟩
    rw [padded_eq, padded_eq, ← whole]
    simp [opens]

theorem hasSegments_iff {word name : String} : hasSegments word name = true ↔ HasRun word name := by
  rw [hasSegments, occursIn_iff, HasRun]
  exact padded_infix_iff

namespace HasRun

variable {word name : String}

theorem padded (run : HasRun word name) :
    '_' :: word.toList ++ ['_'] <:+: '_' :: name.toList ++ ['_'] :=
  padded_infix_iff.mpr run

theorem length_le (run : HasRun word name) : word.length ≤ name.length := by
  simpa [← String.length_toList] using run.padded.length_le

theorem eq_of_length (run : HasRun word name) (size : word.length = name.length) : word = name := by
  have same := run.padded.eq_of_length (by simpa [← String.length_toList] using size)
  apply String.toList_inj.mp
  simpa using same

theorem ne_empty (run : HasRun word name) (some : word ≠ "") : name ≠ "" := by
  rintro rfl
  exact some (String.length_eq_zero_iff.mp (Nat.le_zero.mp run.length_le))

end HasRun

end DataReach.Text
