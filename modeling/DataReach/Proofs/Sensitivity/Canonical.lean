import DataReach.Proofs.Sensitivity.Identifier
/-!
The canonical form of a text. It is made of runs of small letters and digits with single gaps
between them, it keeps all letters and digits of the text in their order, and a canonical name is
its own canonical form.
-/

namespace DataReach.Identifier

def IsRun (run : List Char) : Prop := run ≠ [] ∧ ∀ c ∈ run, IsSmall c

def Canonical (name : List Char) : Prop :=
  ∃ runs : List (List Char), (∀ run ∈ runs, IsRun run) ∧ name = ['_'].intercalate runs

theorem intercalate_head {run : List Char} (isRun : IsRun run) (rest : List (List Char)) :
    ∃ c behind, ['_'].intercalate (run :: rest) = c :: behind ∧ IsSmall c := by
  obtain ⟨c, others, rfl⟩ := List.exists_cons_of_ne_nil isRun.1
  have small : IsSmall c := isRun.2 c (List.mem_cons_self ..)
  cases rest with
  | nil => exact ⟨c, others, by simp, small⟩
  | cons next behind =>
    exact ⟨c, others ++ '_' :: ['_'].intercalate (next :: behind), by simp, small⟩

/-! ### What is written is canonical -/

theorem canonical_nil : Canonical [] := ⟨[], nofun, rfl⟩

theorem canonical_cons {c : Char} (small : IsSmall c) {name : List Char}
    (canonical : Canonical name) : Canonical (c :: name) := by
  obtain ⟨runs, isRun, rfl⟩ := canonical
  cases runs with
  | nil =>
    refine ⟨[[c]], ?_, rfl⟩
    simpa [IsRun] using small
  | cons run rest =>
    obtain ⟨first, others⟩ := List.forall_mem_cons.mp isRun
    refine ⟨(c :: run) :: rest, ?_, by cases rest <;> simp⟩
    refine List.forall_mem_cons.mpr ⟨⟨List.cons_ne_nil _ _, ?_⟩, others⟩
    exact List.forall_mem_cons.mpr ⟨small, first.2⟩

theorem canonical_cons_gap {c : Char} (small : IsSmall c) {name : List Char}
    (canonical : Canonical name) (some : name ≠ []) : Canonical (c :: '_' :: name) := by
  obtain ⟨runs, isRun, rfl⟩ := canonical
  have nonempty : runs ≠ [] := by
    rintro rfl
    exact some rfl
  refine ⟨[c] :: runs, List.forall_mem_cons.mpr ⟨?_, isRun⟩, ?_⟩
  · simpa [IsRun] using small
  · rw [List.intercalate_cons_of_ne_nil nonempty]
    simp

theorem canonical_or_gap {cs : List Char} (chars : ∀ c ∈ cs, c = '_' ∨ IsSmall c)
    (last : cs.getLast? ≠ some '_') (alone : cs.IsChain fun a b => a ≠ '_' ∨ b ≠ '_') :
    Canonical cs ∨ ∃ name, Canonical name ∧ name ≠ [] ∧ cs = '_' :: name := by
  induction cs with
  | nil => exact .inl canonical_nil
  | cons c rest ih =>
    obtain ⟨first, others⟩ := List.forall_mem_cons.mp chars
    have lastRest : rest.getLast? ≠ some '_' := by
      cases rest with
      | nil => simp
      | cons d behind => rwa [List.getLast?_cons_cons] at last
    have behind := ih others lastRest alone.tail
    rcases first with rfl | small
    · rcases behind with canonical | ⟨name, -, -, rfl⟩
      · refine .inr ⟨rest, canonical, ?_, rfl⟩
        rintro rfl
        exact last rfl
      · simp at alone
    · rcases behind with canonical | ⟨name, canonical, some, rfl⟩
      · exact .inl (canonical_cons small canonical)
      · exact .inl (canonical_cons_gap small canonical some)

theorem canonical_normalizeList (cs : List Char) : Canonical (normalizeList cs) := by
  rw [normalizeList_eq]
  have tidy : (cs.foldl Progress.step .start).Tidy := tidy_foldl tidy_start cs
  generalize cs.foldl Progress.step .start = p at tidy
  have suffix : p.trimmed <:+ p.written := List.dropWhile_suffix _
  have head : p.trimmed.head? ≠ some '_' := by
    have kept := List.head?_dropWhile_not (· == '_') p.written
    rw [← Progress.trimmed] at kept
    intro gap
    simp [gap] at kept
  have last : p.trimmed.getLast? ≠ some '_' := by
    obtain ⟨front, whole⟩ := suffix
    have first := tidy.first
    rw [← whole, List.getLast?_append] at first
    intro gap
    simp [gap] at first
  have alone : p.trimmed.reverse.IsChain fun a b => a ≠ '_' ∨ b ≠ '_' := by
    rw [List.isChain_reverse]
    exact (tidy.alone.suffix suffix).imp fun _ _ other => other.symm
  have chars : ∀ c ∈ p.trimmed.reverse, c = '_' ∨ IsSmall c := fun c member =>
    tidy.chars c (suffix.subset (List.mem_reverse.mp member))
  rcases canonical_or_gap chars (by simpa using head) alone with canonical | ⟨name, -, -, gap⟩
  · exact canonical
  · have opens := congrArg List.head? gap
    rw [List.head?_reverse] at opens
    exact absurd opens last

/-! ### What is canonical is kept -/

theorem isUpper_of_small {c : Char} (small : IsSmall c) : c.isUpper = false := by
  refine decide_eq_false fun upper => ?_
  have least := UInt32.le_iff_toNat_le.mp upper.1
  have greatest := UInt32.le_iff_toNat_le.mp upper.2
  simp only [Char.reduceVal, UInt32.reduceToNat] at least greatest
  rcases small with letter | digit
  · have above := UInt32.le_iff_toNat_le.mp (isLower_iff.mp letter).1
    simp only [Char.reduceVal, UInt32.reduceToNat] at above
    omega
  · have nine : c.val ≤ '9'.val := of_decide_eq_true (Bool.and_eq_true_iff.mp digit).2
    have below := UInt32.le_iff_toNat_le.mp nine
    simp only [Char.reduceVal, UInt32.reduceToNat] at below
    omega

theorem toLower_of_small {c : Char} (small : IsSmall c) : c.toLower = c := by
  refine dif_neg fun upper => ?_
  have large : c.isUpper = true := decide_eq_true upper
  rw [isUpper_of_small small] at large
  cases large

theorem written_small {run : List Char} (small : ∀ c ∈ run, IsSmall c) (p : Progress) :
    (run.foldl Progress.step p).written = run.reverse ++ p.written := by
  induction run generalizing p with
  | nil => rfl
  | cons c rest ih =>
    obtain ⟨first, others⟩ := List.forall_mem_cons.mp small
    have letter : c.isAlphanum = true := isAlphanum_iff.mpr (.inr first)
    have step : (p.step c).written = c :: p.written := by
      simp [Progress.step, letter, isUpper_of_small first, toLower_of_small first]
    rw [List.foldl_cons, ih others, step, List.reverse_cons, List.append_assoc]
    rfl

theorem normalizeList_run {run : List Char} (isRun : IsRun run) : normalizeList run = run := by
  have kept : run.reverse.dropWhile (· == '_') = run.reverse := by
    rw [List.dropWhile_eq_self_iff]
    intro length
    have member := List.mem_reverse.mp (List.getElem_mem length)
    simpa using (isRun.2 _ member).ne_gap
  rw [normalizeList, written_small isRun.2, Progress.start, List.append_nil, kept,
    List.reverse_reverse]

theorem normalizeList_canonical {name : List Char} (canonical : Canonical name) :
    normalizeList name = name := by
  obtain ⟨runs, isRun, rfl⟩ := canonical
  induction runs with
  | nil => rfl
  | cons run rest ih =>
    obtain ⟨first, others⟩ := List.forall_mem_cons.mp isRun
    by_cases last : rest = []
    · rw [last]
      simpa using normalizeList_run first
    · have gap : ∀ c ∈ ['_'], c.isAlphanum = false := by
        intro c member
        rw [List.mem_singleton.mp member]
        rfl
      have some : ['_'].intercalate rest ≠ [] := by
        obtain ⟨next, behind, rfl⟩ := List.exists_cons_of_ne_nil last
        have isRun := others next (List.mem_cons_self ..)
        obtain ⟨c, chars, whole, -⟩ := intercalate_head isRun behind
        rw [whole]
        exact List.cons_ne_nil _ _
      rw [List.intercalate_cons_of_ne_nil last,
        normalizeList_append run (['_'].intercalate rest) (List.cons_ne_nil _ _) gap,
        normalizeList_run first, ih others, joined, if_neg first.1, if_neg some]
      simp

/-! ### Letters are neither lost nor moved -/

def letters (written : List Char) : List Char := written.filter (· != '_')

theorem letters_cons {c : Char} (small : IsSmall c) (written : List Char) :
    letters (c :: written) = c :: letters written := by
  simp [letters, small.ne_gap]

theorem letters_step (p : Progress) (c : Char) :
    letters (p.step c).written =
      if c.isAlphanum then c.toLower :: letters p.written else letters p.written := by
  rw [Progress.step]
  split
  · next letter =>
    rw [letters_cons (isSmall_toLower letter)]
    split <;> rfl
  · rw [Progress.gap]
    split
    · next none => rw [none]
    · rfl
    · rfl

theorem letters_foldl (cs : List Char) (p : Progress) :
    letters (cs.foldl Progress.step p).written =
      ((cs.filter Char.isAlphanum).map Char.toLower).reverse ++ letters p.written := by
  induction cs generalizing p with
  | nil => rfl
  | cons c rest ih =>
    rw [List.foldl_cons, ih, letters_step]
    by_cases letter : c.isAlphanum <;> simp [letter]

theorem letters_trimmed (p : Progress) : letters p.trimmed = letters p.written := by
  have gaps : letters (p.written.takeWhile (· == '_')) = [] := by
    refine List.filter_eq_nil_iff.mpr fun c member => ?_
    simpa using List.mem_takeWhile_imp member
  calc letters p.trimmed
      = letters (p.written.takeWhile (· == '_')) ++ letters p.trimmed := by rw [gaps]; rfl
    _ = letters (p.written.takeWhile (· == '_') ++ p.trimmed) := (List.filter_append ..).symm
    _ = letters p.written := by rw [Progress.trimmed, List.takeWhile_append_dropWhile]

theorem letters_normalizeList (cs : List Char) :
    letters (normalizeList cs) = (cs.filter Char.isAlphanum).map Char.toLower := by
  rw [normalizeList_eq, letters, List.filter_reverse, ← letters, letters_trimmed, letters_foldl]
  simp [Progress.start, letters]

theorem eq_nil_of_letters {name : List Char} (canonical : Canonical name)
    (none : letters name = []) : name = [] := by
  obtain ⟨runs, isRun, rfl⟩ := canonical
  cases runs with
  | nil => rfl
  | cons run rest =>
    have first := isRun run (List.mem_cons_self ..)
    obtain ⟨c, behind, whole, small⟩ := intercalate_head first rest
    rw [whole, letters_cons small] at none
    cases none

theorem normalizeList_eq_nil_iff {cs : List Char} :
    normalizeList cs = [] ↔ ∀ c ∈ cs, c.isAlphanum = false := by
  have kept := letters_normalizeList cs
  constructor
  · intro empty
    rw [empty] at kept
    have none := List.map_eq_nil_iff.mp kept.symm
    simpa using List.filter_eq_nil_iff.mp none
  · intro none
    have nothing : cs.filter Char.isAlphanum = [] :=
      List.filter_eq_nil_iff.mpr fun c member => by simp [none c member]
    rw [nothing] at kept
    exact eq_nil_of_letters (canonical_normalizeList cs) kept

/-- What a name that stands for a text has to be: it is made of runs, is empty only where the text
has no letter or digit, has those of the text in their order, and stands for itself. -/
structure StandsFor (name text : String) : Prop where
  canonical : Canonical name.toList
  empty_iff : name = "" ↔ ∀ c ∈ text.toList, c.isAlphanum = false
  kept : letters name.toList = (text.toList.filter Char.isAlphanum).map Char.toLower
  settled : normalize name = name

theorem normalize_canonical (text : String) : StandsFor (normalize text) text := by
  have chars : (normalize text).toList = normalizeList text.toList := String.toList_ofList
  have canonical := canonical_normalizeList text.toList
  refine ⟨?_, ?_, ?_, ?_⟩
  · rw [chars]
    exact canonical
  · rw [← normalizeList_eq_nil_iff, ← chars, String.toList_eq_nil_iff]
  · rw [chars, letters_normalizeList]
  · rw [normalize, chars, normalizeList_canonical canonical, normalize]

end DataReach.Identifier
