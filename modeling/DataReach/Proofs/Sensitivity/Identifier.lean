import DataReach.Sensitivity.Identifier
import Mathlib.Data.List.Chain
import Mathlib.Data.List.DropRight
import Mathlib.Data.List.Infix
import Mathlib.Data.List.TakeWhile
/-!
The canonical form of an identifier. What is written is tidy: small letters and digits, and gaps that
stand alone between them. So a name that is put together from two names with something between them
has their canonical forms side by side.
-/

namespace DataReach.Identifier

def IsSmall (c : Char) : Prop := c.isLower = true ∨ c.isDigit = true

theorem isLower_iff {c : Char} : c.isLower = true ↔ 'a'.val ≤ c.val ∧ c.val ≤ 'z'.val :=
  Bool.and_eq_true_iff.trans (and_congr decide_eq_true_iff decide_eq_true_iff)

theorem isSmall_toLower {c : Char} (letter : c.isAlphanum = true) : IsSmall c.toLower := by
  by_cases upper : 'A'.val ≤ c.val ∧ c.val ≤ 'Z'.val
  · have lowered : c.toLower.val = c.val + ('a'.val - 'A'.val) := congrArg Char.val (dif_pos upper)
    have least := UInt32.le_iff_toNat_le.mp upper.1
    have greatest := UInt32.le_iff_toNat_le.mp upper.2
    have sum := congrArg UInt32.toNat lowered
    simp only [UInt32.toNat_add, Char.reduceVal, UInt32.reduceToNat, UInt32.reduceSub]
      at least greatest sum
    refine .inl (isLower_iff.mpr ?_)
    simp only [Char.reduceVal, UInt32.le_iff_toNat_le, UInt32.reduceToNat]
    omega
  · have kept : c.toLower = c := dif_neg upper
    rw [kept]
    rcases Bool.or_eq_true_iff.mp letter with alpha | digit
    · rcases Bool.or_eq_true_iff.mp alpha with large | small
      · exact absurd (of_decide_eq_true large) upper
      · exact .inl small
    · exact .inr digit

theorem isAlphanum_iff {c : Char} : c.isAlphanum = true ↔ c.isUpper = true ∨ IsSmall c := by
  rw [IsSmall, ← or_assoc]
  exact Bool.or_eq_true_iff.trans (or_congr_left Bool.or_eq_true_iff)

theorem isAlphanum_toLower (c : Char) : c.toLower.isAlphanum = c.isAlphanum := by
  cases letter : c.isAlphanum with
  | true => exact isAlphanum_iff.mpr (.inr (isSmall_toLower letter))
  | false =>
    have other : ¬ ('A'.val ≤ c.val ∧ c.val ≤ 'Z'.val) := by
      intro upper
      rw [isAlphanum_iff.mpr (.inl (decide_eq_true upper))] at letter
      cases letter
    have kept : c.toLower = c := dif_neg other
    rw [kept, letter]

theorem IsSmall.ne_gap {c : Char} (small : IsSmall c) : c ≠ '_' := by
  rintro rfl
  rcases small with letter | digit
  · exact absurd letter (by decide)
  · exact absurd digit (by decide)

theorem IsSmall.utf8Size {c : Char} (small : IsSmall c) : c.utf8Size = 1 := by
  rw [Char.utf8Size_eq_one_iff, UInt32.le_iff_toNat_le]
  rcases small with letter | digit
  · exact Nat.le_trans (UInt32.le_iff_toNat_le.mp (isLower_iff.mp letter).2) (by decide)
  · simp only [Char.isDigit, Char.reduceVal, ge_iff_le, UInt32.le_iff_toNat_le,
      UInt32.reduceToNat, Bool.and_eq_true, decide_eq_true_eq] at digit
    exact Nat.le_trans digit.2 (by decide)

/-! ### What is written -/

/-- A gap is not first and not next to another one, and does not follow what is small. -/
structure Progress.Tidy (p : Progress) : Prop where
  chars : ∀ c ∈ p.written, c = '_' ∨ IsSmall c
  first : p.written.getLast? ≠ some '_'
  alone : p.written.IsChain fun a b => a ≠ '_' ∨ b ≠ '_'
  small : p.afterSmall = true → ∃ c rest, p.written = c :: rest ∧ IsSmall c

theorem tidy_start : Progress.start.Tidy where
  chars := fun _ member => nomatch member
  first := nofun
  alone := .nil
  small := nofun

theorem tidy_letter {p : Progress} (tidy : p.Tidy) {c : Char} (letter : IsSmall c) (small : Bool) :
    (⟨c :: p.written, small⟩ : Progress).Tidy where
  chars := by
    intro d member
    rcases List.mem_cons.mp member with rfl | before
    · exact .inr letter
    · exact tidy.chars d before
  first := by
    cases written : p.written with
    | nil => simpa using letter.ne_gap
    | cons d rest =>
      have before := tidy.first
      rwa [written, ← List.getLast?_cons_cons (a := c)] at before
  alone := List.isChain_cons.mpr ⟨fun _ _ => .inl letter.ne_gap, tidy.alone⟩
  small := fun _ => ⟨c, p.written, rfl, letter⟩

theorem tidy_gap {p : Progress} (tidy : p.Tidy) {c : Char} {rest : List Char}
    (written : p.written = c :: rest) (letter : c ≠ '_') :
    (⟨'_' :: p.written, false⟩ : Progress).Tidy where
  chars := by
    intro d member
    rcases List.mem_cons.mp member with rfl | before
    · exact .inl rfl
    · exact tidy.chars d before
  first := by
    have before := tidy.first
    rw [written] at before ⊢
    rwa [List.getLast?_cons_cons]
  alone := by
    rw [written, List.isChain_cons_cons, ← written]
    exact ⟨.inr letter, tidy.alone⟩
  small := nofun

theorem tidy_quiet {p : Progress} (tidy : p.Tidy) : (⟨p.written, false⟩ : Progress).Tidy :=
  { tidy with small := nofun }

theorem tidy_step {p : Progress} (tidy : p.Tidy) (c : Char) : (p.step c).Tidy := by
  rw [Progress.step]
  split
  · next letter =>
    have lowered := isSmall_toLower letter
    by_cases starts : (c.isUpper && p.afterSmall) = true
    · obtain ⟨d, rest, written, small⟩ := tidy.small (Bool.and_eq_true_iff.mp starts).2
      simp only [starts, if_true]
      exact tidy_letter (tidy_gap tidy written small.ne_gap) lowered _
    · simp only [starts]
      exact tidy_letter tidy lowered _
  · rw [Progress.gap]
    split
    · next none => exact none ▸ tidy_quiet tidy
    · exact tidy_quiet tidy
    · next _ some other =>
      obtain ⟨d, rest, written⟩ := List.exists_cons_of_ne_nil some
      exact tidy_gap tidy written fun gap => other rest (gap ▸ written)

theorem tidy_foldl {p : Progress} (tidy : p.Tidy) (cs : List Char) :
    (cs.foldl Progress.step p).Tidy := by
  induction cs generalizing p with
  | nil => exact tidy
  | cons c rest ih => exact ih (tidy_step tidy c)

def Progress.trimmed (p : Progress) : List Char := p.written.dropWhile (· == '_')

theorem normalizeList_eq (cs : List Char) :
    normalizeList cs = (cs.foldl Progress.step .start).trimmed.reverse := rfl

theorem gap_eq {p : Progress} (tidy : p.Tidy) :
    p.gap = if p.trimmed = [] then [] else '_' :: p.trimmed := by
  rw [Progress.gap, Progress.trimmed]
  split
  · next none => simp [none]
  · next rest written =>
    cases rest with
    | nil => exact absurd (by simp [written]) tidy.first
    | cons d others =>
      have alone := tidy.alone
      rw [written, List.isChain_cons_cons] at alone
      have letter : d ≠ '_' := alone.1.resolve_left fun other => other rfl
      simp [written, letter]
  · next some other =>
    obtain ⟨d, rest, written⟩ := List.exists_cons_of_ne_nil some
    have letter : d ≠ '_' := fun gap => other rest (gap ▸ written)
    simp [written, letter]

theorem chars_normalizeList {cs : List Char} {c : Char} (member : c ∈ normalizeList cs) :
    c = '_' ∨ IsSmall c := by
  rw [normalizeList_eq, List.mem_reverse] at member
  have tidy : (cs.foldl Progress.step .start).Tidy := tidy_foldl tidy_start cs
  exact tidy.chars c ((List.dropWhile_suffix _).subset member)

theorem utf8ByteSize_ofList {cs : List Char} (narrow : ∀ c ∈ cs, c.utf8Size = 1) :
    (String.ofList cs).utf8ByteSize = cs.length := by
  induction cs with
  | nil => rfl
  | cons c rest ih =>
    have whole : String.ofList (c :: rest) = String.singleton c ++ String.ofList rest := by
      apply String.toList_inj.mp
      simp
    rw [whole, String.utf8ByteSize_append, String.utf8ByteSize_singleton,
      narrow c (List.mem_cons_self ..), ih fun d member => narrow d (List.mem_cons_of_mem c member),
      List.length_cons, Nat.add_comm]

theorem utf8ByteSize_normalize (text : String) :
    (normalize text).utf8ByteSize = (normalize text).length := by
  rw [normalize, String.length_ofList]
  refine utf8ByteSize_ofList fun c member => ?_
  rcases chars_normalizeList member with rfl | small
  · rfl
  · exact small.utf8Size

/-! ### Letters are kept -/

theorem suffix_gap (p : Progress) : p.written <:+ p.gap := by
  rw [Progress.gap]
  split
  · next none => exact none ▸ List.suffix_rfl
  · exact List.suffix_rfl
  · exact List.suffix_cons _ _

theorem suffix_step (p : Progress) (c : Char) : p.written <:+ (p.step c).written := by
  rw [Progress.step]
  split
  · simp only
    split
    · exact (List.suffix_cons _ _).trans (List.suffix_cons _ _)
    · exact List.suffix_cons _ _
  · exact suffix_gap p

theorem written_letter {cs : List Char} (p : Progress) {c : Char} (member : c ∈ cs)
    (letter : c.isAlphanum = true) : c.toLower ∈ (cs.foldl Progress.step p).written := by
  have grows : ∀ (cs : List Char) (p : Progress),
      p.written <:+ (cs.foldl Progress.step p).written := by
    intro cs
    induction cs with
    | nil => exact fun _ => List.suffix_rfl
    | cons d rest ih => exact fun p => (suffix_step p d).trans (ih _)
  induction cs generalizing p with
  | nil => cases member
  | cons d rest ih =>
    rcases List.mem_cons.mp member with rfl | later
    · apply (grows rest (p.step c)).subset
      rw [Progress.step, if_pos letter]
      exact List.mem_cons_self ..
    · exact ih _ later

theorem normalize_ne_empty {key : String} (letter : ∃ c ∈ key.toList, c.isAlphanum = true) :
    normalize key ≠ "" := by
  obtain ⟨c, member, letter⟩ := letter
  have written := written_letter .start member letter
  intro empty
  have none : normalizeList key.toList = [] := by
    have chars := congrArg String.toList empty
    simpa [normalize] using chars
  rw [normalizeList, List.reverse_eq_nil_iff, List.dropWhile_eq_nil_iff] at none
  exact (isSmall_toLower letter).ne_gap (by simpa using none _ written)

/-! ### Names side by side -/

def Progress.onto (p : Progress) (base : List Char) : Progress :=
  ⟨p.written ++ '_' :: base, p.afterSmall⟩

theorem gap_onto (p : Progress) (base : List Char) : (p.onto base).gap = p.gap ++ '_' :: base := by
  rcases p with ⟨written, small⟩
  cases written with
  | nil => rfl
  | cons c rest =>
    by_cases gap : c = '_'
    · rw [gap]
      rfl
    · simp [Progress.gap, Progress.onto, gap]

theorem step_onto (p : Progress) (base : List Char) (c : Char) :
    (p.onto base).step c = (p.step c).onto base := by
  by_cases letter : c.isAlphanum
  · by_cases starts : (c.isUpper && p.afterSmall) = true <;>
      simp [Progress.step, Progress.onto, letter, starts]
  · have gap := gap_onto p base
    simp only [Progress.step, letter, Bool.false_eq_true, if_false, gap]
    rfl

theorem foldl_onto (cs : List Char) (p : Progress) (base : List Char) :
    cs.foldl Progress.step (p.onto base) = (cs.foldl Progress.step p).onto base := by
  induction cs generalizing p with
  | nil => rfl
  | cons c rest ih => rw [List.foldl_cons, step_onto, ih, List.foldl_cons]

theorem gap_gap (p : Progress) (small : Bool) : (⟨p.gap, small⟩ : Progress).gap = p.gap := by
  rcases p with ⟨written, -⟩
  cases written with
  | nil => rfl
  | cons c rest =>
    by_cases gap : c = '_' <;> simp [Progress.gap, gap]

theorem foldl_separator {separator : List Char} (some : separator ≠ [])
    (separates : ∀ c ∈ separator, c.isAlphanum = false) (p : Progress) :
    separator.foldl Progress.step p = ⟨p.gap, false⟩ := by
  induction separator generalizing p with
  | nil => exact absurd rfl some
  | cons c rest ih =>
    have first : p.step c = ⟨p.gap, false⟩ := by
      simp [Progress.step, separates c (List.mem_cons_self ..)]
    rw [List.foldl_cons, first]
    by_cases last : rest = []
    · rw [last]
      rfl
    · rw [ih last fun d member => separates d (List.mem_cons_of_mem c member), gap_gap]

def joined (front back : List Char) : List Char :=
  if front = [] then back else if back = [] then front else front ++ '_' :: back

theorem trimmed_onto (p : Progress) (q : Progress) :
    (p.onto q.trimmed).trimmed = if p.trimmed = [] then q.trimmed
      else p.trimmed ++ '_' :: q.trimmed := by
  have again : ('_' :: q.trimmed).dropWhile (· == '_') = q.trimmed := by
    rw [List.dropWhile_cons_of_pos rfl, Progress.trimmed, List.dropWhile_idempotent]
  rw [Progress.trimmed, Progress.onto, List.dropWhile_append, again, ← Progress.trimmed]
  by_cases none : p.trimmed = [] <;> simp [none]

theorem normalizeList_append (front back : List Char) {separator : List Char}
    (some : separator ≠ []) (separates : ∀ c ∈ separator, c.isAlphanum = false) :
    normalizeList (front ++ separator ++ back) =
      joined (normalizeList front) (normalizeList back) := by
  have tidy := tidy_foldl tidy_start front
  simp only [normalizeList_eq, List.foldl_append, foldl_separator some separates, gap_eq tidy,
    joined, List.reverse_eq_nil_iff]
  generalize front.foldl Progress.step .start = p
  by_cases none : p.trimmed = []
  · simp only [none, if_true]
    rfl
  · have resumed : (⟨'_' :: p.trimmed, false⟩ : Progress) = Progress.start.onto p.trimmed := rfl
    simp only [none, if_false, resumed, foldl_onto, trimmed_onto]
    by_cases empty : (back.foldl Progress.step .start).trimmed = []
    · simp [empty]
    · simp [empty]

end DataReach.Identifier
