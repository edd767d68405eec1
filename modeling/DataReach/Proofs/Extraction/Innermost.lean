import DataReach.Function
import Mathlib.Data.List.Basic
/-!
Which function a line belongs to. The scan keeps the first of the smallest functions around the
line; it starts from the greatest size there is, so that a function of just this size never counts.
-/

namespace DataReach

namespace FunctionNode

def Around (f : FunctionNode) (line : UInt32) : Prop :=
  f.startLine.toNat ≤ line.toNat ∧ line.toNat ≤ f.endLine.toNat

def extent (f : FunctionNode) : Nat := f.endLine.toNat - f.startLine.toNat

theorem containsLine_iff {f : FunctionNode} {line : UInt32} :
    f.containsLine line = true ↔ f.Around line := by
  simp [containsLine, Around, UInt32.le_iff_toNat_le]

theorem toNat_span (f : FunctionNode) : f.span.toNat = f.extent := by
  rw [span, extent]
  split
  · next le => exact UInt32.toNat_sub_of_le _ _ le
  · next lt =>
    rw [UInt32.le_iff_toNat_le] at lt
    have none : f.endLine.toNat - f.startLine.toNat = 0 := by omega
    rw [none]
    rfl

theorem extent_lt (f : FunctionNode) : f.extent < UInt32.size :=
  Nat.lt_of_le_of_lt (Nat.sub_le _ _) f.endLine.toNat_lt_size

theorem extent_eq_max_iff {f : FunctionNode} :
    f.extent = UInt32.size - 1 ↔ f.startLine = 0 ∧ f.endLine = 0xFFFFFFFF := by
  have bound := f.endLine.toNat_lt_size
  have zero : (0 : UInt32).toNat = 0 := rfl
  have max : (0xFFFFFFFF : UInt32).toNat = UInt32.size - 1 := rfl
  have size : UInt32.size = 4294967296 := rfl
  rw [extent, ← UInt32.toNat_inj, zero, ← UInt32.toNat_inj, max]
  omega

end FunctionNode

/-- The function at a position is around the line, none around it is smaller, and none that comes
before is as small. -/
structure Innermost (functions : List FunctionNode) (line : UInt32) (i : Nat) (f : FunctionNode) :
    Prop where
  here : functions[i]? = some f
  around : f.Around line
  least : ∀ h ∈ functions, h.Around line → f.extent ≤ h.extent
  first : ∀ j h, j < i → functions[j]? = some h → h.Around line → f.extent < h.extent

section Scan

variable {passed functions : List FunctionNode} {line : UInt32} {best : Option Nat} {size : UInt32}

theorem Innermost.unique {i j : Nat} {f h : FunctionNode} (first : Innermost functions line i f)
    (second : Innermost functions line j h) : i = j ∧ f = h := by
  have same : f.extent = h.extent := Nat.le_antisymm
    (first.least h (List.mem_of_getElem? second.here) second.around)
    (second.least f (List.mem_of_getElem? first.here) first.around)
  have position : i = j := by
    rcases Nat.lt_trichotomy i j with before | same | after
    · have smaller := second.first i f before first.here first.around
      omega
    · exact same
    · have smaller := first.first j h after second.here second.around
      omega
  subst position
  exact ⟨rfl, Option.some.inj (first.here.symm.trans second.here)⟩

theorem Innermost.keep {i : Nat} {f g : FunctionNode} (chosen : Innermost passed line i f)
    (larger : g.Around line → f.extent ≤ g.extent) : Innermost (passed ++ [g]) line i f where
  here := by
    have below := (List.getElem?_eq_some_iff.mp chosen.here).1
    rw [List.getElem?_append_left below, chosen.here]
  around := chosen.around
  least := by
    intro h member around
    rcases List.mem_append.mp member with before | last
    · exact chosen.least h before around
    · rw [List.mem_singleton.mp last] at around ⊢
      exact larger around
  first := by
    intro j h before there around
    have below := (List.getElem?_eq_some_iff.mp chosen.here).1
    rw [List.getElem?_append_left (by omega)] at there
    exact chosen.first j h before there around

theorem Innermost.take {g : FunctionNode} (around : g.Around line)
    (smaller : ∀ h ∈ passed, h.Around line → g.extent < h.extent) :
    Innermost (passed ++ [g]) line passed.length g where
  here := List.getElem?_concat_length
  around := around
  least := by
    intro h member held
    rcases List.mem_append.mp member with before | last
    · exact Nat.le_of_lt (smaller h before held)
    · exact Nat.le_of_eq (congrArg FunctionNode.extent (List.mem_singleton.mp last).symm)
  first := by
    intro j h before there held
    rw [List.getElem?_append_left before] at there
    exact smaller h (List.mem_of_getElem? there) held

/-- What the scan knows of the functions it has passed: none around the line is below the size, and
the choice, if there is one, has this size and is below the greatest. -/
structure Scanned (passed : List FunctionNode) (line : UInt32) (best : Option Nat) (size : UInt32) :
    Prop where
  bound : ∀ f ∈ passed, f.Around line → size.toNat ≤ f.extent
  none : best = none → size.toNat = UInt32.size - 1
  chosen : ∀ i, best = some i → ∃ f, Innermost passed line i f ∧ f.extent = size.toNat ∧
    f.extent < UInt32.size - 1

theorem scanned_start : Scanned [] line none 0xFFFFFFFF where
  bound := fun _ member => nomatch member
  none := fun _ => rfl
  chosen := fun _ some => nomatch some

theorem scanned_take {f : FunctionNode} (scanned : Scanned passed line best size)
    (around : f.Around line) (smaller : f.extent < size.toNat) :
    Scanned (passed ++ [f]) line (some passed.length) f.span where
  bound := by
    intro h member held
    rw [f.toNat_span]
    rcases List.mem_append.mp member with before | last
    · exact Nat.le_trans (Nat.le_of_lt smaller) (scanned.bound h before held)
    · exact Nat.le_of_eq (congrArg FunctionNode.extent (List.mem_singleton.mp last).symm)
  none := nofun
  chosen := by
    intro i some
    obtain rfl := Option.some.inj some
    refine ⟨f, .take around fun h before held => ?_, f.toNat_span.symm, ?_⟩
    · exact Nat.lt_of_lt_of_le smaller (scanned.bound h before held)
    · have greatest := size.toNat_lt_size
      omega

theorem scanned_keep {f : FunctionNode} (scanned : Scanned passed line best size)
    (larger : f.Around line → size.toNat ≤ f.extent) :
    Scanned (passed ++ [f]) line best size where
  bound := by
    intro h member held
    rcases List.mem_append.mp member with before | last
    · exact scanned.bound h before held
    · rw [List.mem_singleton.mp last] at held ⊢
      exact larger held
  none := scanned.none
  chosen := by
    intro i some
    obtain ⟨h, innermost, same, below⟩ := scanned.chosen i some
    exact ⟨h, innermost.keep fun held => same ▸ larger held, same, below⟩

theorem scanned_innermostFrom (scanned : Scanned passed line best size)
    (rest : List FunctionNode) :
    ∃ size', Scanned (passed ++ rest) line (innermostFrom line passed.length best size rest)
      size' := by
  induction rest generalizing passed best size with
  | nil => exact ⟨size, by simpa [innermostFrom] using scanned⟩
  | cons f rest ih =>
    have reorder : passed ++ f :: rest = (passed ++ [f]) ++ rest := by simp
    have length : passed.length + 1 = (passed ++ [f]).length := by simp
    rw [reorder, innermostFrom, length]
    split
    · next taken =>
      rw [Bool.and_eq_true, decide_eq_true_eq, UInt32.lt_iff_toNat_lt, f.toNat_span] at taken
      exact ih (scanned_take scanned (FunctionNode.containsLine_iff.mp taken.1) taken.2)
    · next kept =>
      refine ih (scanned_keep scanned fun around => ?_)
      rw [Bool.and_eq_true, decide_eq_true_eq, UInt32.lt_iff_toNat_lt, f.toNat_span] at kept
      exact Nat.le_of_not_lt fun smaller =>
        kept ⟨FunctionNode.containsLine_iff.mpr around, smaller⟩

theorem scanned_innermostPosition (functions : List FunctionNode) (line : UInt32) :
    ∃ size, Scanned functions line (innermostPosition functions line) size :=
  scanned_innermostFrom scanned_start functions

/-- A position is found exactly for the innermost function, unless it is of the greatest size. -/
theorem innermostPosition_eq_some_iff {i : Nat} : innermostPosition functions line = some i ↔
    ∃ f, Innermost functions line i f ∧ f.extent < UInt32.size - 1 := by
  obtain ⟨size, scanned⟩ := scanned_innermostPosition functions line
  constructor
  · intro found
    obtain ⟨f, innermost, -, below⟩ := scanned.chosen i found
    exact ⟨f, innermost, below⟩
  · rintro ⟨f, innermost, below⟩
    cases found : innermostPosition functions line with
    | none =>
      have bound := scanned.bound f (List.mem_of_getElem? innermost.here) innermost.around
      rw [scanned.none found] at bound
      omega
    | some j =>
      obtain ⟨h, other, -⟩ := scanned.chosen j found
      rw [(innermost.unique other).1]

theorem innermostPosition_eq_none_iff : innermostPosition functions line = none ↔
    ∀ f ∈ functions, f.Around line → f.startLine = 0 ∧ f.endLine = 0xFFFFFFFF := by
  obtain ⟨size, scanned⟩ := scanned_innermostPosition functions line
  constructor
  · intro none f member around
    have bound := scanned.bound f member around
    rw [scanned.none none] at bound
    have below := f.extent_lt
    exact FunctionNode.extent_eq_max_iff.mp (by omega)
  · intro whole
    cases found : innermostPosition functions line with
    | none => rfl
    | some i =>
      obtain ⟨f, innermost, -, below⟩ := scanned.chosen i found
      have all := whole f (List.mem_of_getElem? innermost.here) innermost.around
      rw [FunctionNode.extent_eq_max_iff.mpr all] at below
      omega

theorem innermost_eq_some_iff {f : FunctionNode} :
    innermost functions line = some f ↔
      ∃ i, Innermost functions line i f ∧ f.extent < UInt32.size - 1 := by
  constructor
  · intro found
    obtain ⟨i, position, there⟩ := Option.bind_eq_some_iff.mp found
    obtain ⟨h, chosen, below⟩ := innermostPosition_eq_some_iff.mp position
    obtain rfl : h = f := Option.some.inj (chosen.here.symm.trans there)
    exact ⟨i, chosen, below⟩
  · rintro ⟨i, chosen, below⟩
    have position := innermostPosition_eq_some_iff.mpr ⟨f, chosen, below⟩
    exact Option.bind_eq_some_iff.mpr ⟨i, position, chosen.here⟩

/-- A function is found for a line unless those around it are all of the greatest length. -/
theorem exists_innermost_iff : (∃ f, innermost functions line = some f) ↔
    ∃ f ∈ functions, f.Around line ∧ ¬ (f.startLine = 0 ∧ f.endLine = 0xFFFFFFFF) := by
  constructor
  · rintro ⟨f, found⟩
    obtain ⟨i, chosen, below⟩ := innermost_eq_some_iff.mp found
    refine ⟨f, List.mem_of_getElem? chosen.here, chosen.around, fun whole => ?_⟩
    rw [FunctionNode.extent_eq_max_iff.mpr whole] at below
    exact Nat.lt_irrefl _ below
  · rintro ⟨f, member, around, part⟩
    cases position : innermostPosition functions line with
    | none => exact absurd (innermostPosition_eq_none_iff.mp position f member around) part
    | some i =>
      obtain ⟨h, chosen⟩ := innermostPosition_eq_some_iff.mp position
      exact ⟨h, innermost_eq_some_iff.mpr ⟨i, chosen⟩⟩

end Scan

/-- The search tells of each line whether a function is around it, and which one is innermost. -/
structure Locates (functions : List FunctionNode) (line : UInt32) : Prop where
  none_iff : innermostPosition functions line = none ↔ ∀ f ∈ functions, ¬ f.Around line
  innermost : ∀ i, innermostPosition functions line = some i → ∃ f, Innermost functions line i f

/-- What is found, in any list of functions and for any line; and that it is the innermost function
except where nothing but functions of all lines are around the line. -/
theorem innermost_exact (functions : List FunctionNode) (line : UInt32) :
    (∀ i, innermostPosition functions line = some i ↔
      ∃ f, Innermost functions line i f ∧ f.extent < UInt32.size - 1) ∧
    (innermostPosition functions line = none ↔
      ∀ f ∈ functions, f.Around line → f.startLine = 0 ∧ f.endLine = 0xFFFFFFFF) ∧
    (Locates functions line ↔ ((∃ f ∈ functions, f.Around line) →
      ∃ f ∈ functions, f.Around line ∧ ¬ (f.startLine = 0 ∧ f.endLine = 0xFFFFFFFF))) := by
  refine ⟨fun i => innermostPosition_eq_some_iff, innermostPosition_eq_none_iff, ?_, ?_⟩
  · rintro ⟨none_iff, -⟩ ⟨f, member, around⟩
    by_contra whole
    refine none_iff.mp (innermostPosition_eq_none_iff.mpr fun h inside held => ?_) f member around
    by_contra part
    exact whole ⟨h, inside, held, part⟩
  · intro part
    refine ⟨⟨fun none f member around => ?_, fun outside => ?_⟩, fun i found => ?_⟩
    · obtain ⟨h, inside, held, smaller⟩ := part ⟨f, member, around⟩
      exact smaller (innermostPosition_eq_none_iff.mp none h inside held)
    · exact innermostPosition_eq_none_iff.mpr fun f member around =>
        absurd around (outside f member)
    · obtain ⟨f, innermost, -⟩ := innermostPosition_eq_some_iff.mp found
      exact ⟨f, innermost⟩

/-- A function of all lines that a file can have. -/
def wholeFile : FunctionNode where
  id := "a.py:main:0"
  name := "main"
  qualifiedName := "main"
  file := "a.py"
  startLine := 0
  endLine := 0xFFFFFFFF
  isEntryPoint := false
  isDataAccessor := false
  calls := []
  calledBy := []
  dataAccess := []

/-- It is around every line, and still no line is found to be in it. -/
theorem whole_file_overlooked :
    wholeFile.Around 7 ∧ innermostPosition [wholeFile] 7 = none ∧ ¬ Locates [wholeFile] 7 := by
  have around : wholeFile.Around 7 := by unfold FunctionNode.Around; decide
  have none : innermostPosition [wholeFile] 7 = none := by decide
  refine ⟨around, none, fun locates => ?_⟩
  exact locates.none_iff.mp none wholeFile (List.mem_singleton_self _) around

end DataReach
