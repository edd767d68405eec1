import DataReach.Toml.Printer
import Mathlib.Data.List.Basic
/-!
Written texts read back. Each style has a lemma of its own: what it writes, with anything behind it
that is no further quote, is read as the text and what stood behind.
-/

namespace DataReach.Toml

theorem ne_of_test {p : Char → Bool} {c d : Char} (passes : p c = true) (fails : p d = false) :
    c ≠ d := by
  rintro rfl
  rw [passes] at fails
  cases fails

theorem ne_of_plain {c d : Char} (plain : isControl c = false) (control : isControl d = true) :
    c ≠ d :=
  (ne_of_test control plain).symm

def Unquoted (rest : List Char) : Prop :=
  (∀ tail, rest ≠ '"' :: tail) ∧ ∀ tail, rest ≠ '\'' :: tail

theorem unquoted_cons {c : Char} (double : c ≠ '"') (single : c ≠ '\'') (rest : List Char) :
    Unquoted (c :: rest) := by
  simp [Unquoted, double, single]

/-! ### Escapes -/

theorem codeChar_codes : ∀ n < 128,
    codeChar? ['0', '0', hexChar (n / 16), hexChar (n % 16)] = some (Char.ofNat n) := by
  decide

theorem codeChar_control {c : Char} (control : isControl c = true) :
    codeChar? ['0', '0', hexChar (c.toNat / 16), hexChar (c.toNat % 16)] = some c := by
  have small : c.toNat < 128 := by
    simp only [isControl, Bool.or_eq_true, Bool.and_eq_true, decide_eq_true_eq, beq_iff_eq]
      at control
    omega
  rw [codeChar_codes c.toNat small, Char.ofNat_toNat]

theorem escaped_cases (c : Char) :
    (escaped c = [c] ∧ isControl c = false ∧ c ≠ '"' ∧ c ≠ '\\') ∨
      (∃ x, escaped c = ['\\', x] ∧ plainEscape? x = some c) ∨
      (escaped c = codeEscape c ∧ isControl c = true) := by
  rw [escaped.eq_def]
  split
  case h_8 quote slash =>
    split
    · next control => exact .inr (.inr ⟨rfl, control⟩)
    · next plain => exact .inl ⟨rfl, by simpa using plain, quote, slash⟩
  all_goals exact .inr (.inl ⟨_, rfl, rfl⟩)

theorem plainEscape_ne {x c : Char} (escape : plainEscape? x = some c) : x ≠ 'u' ∧ x ≠ 'U' := by
  constructor
  all_goals
    rintro rfl
    cases escape

/-! ### Texts on one line -/

theorem basicBody_escaped (c : Char) (rest : List Char) :
    basicBody (escaped c ++ rest) = before c (basicBody rest) := by
  rcases escaped_cases c with ⟨same, plain, quote, slash⟩ | ⟨x, same, escape⟩ | ⟨same, control⟩
  · rw [same, List.singleton_append, basicBody, if_neg (by simp [plain, slash])]
    all_goals simp [quote, slash]
  · have other := plainEscape_ne escape
    rw [same, List.cons_append, List.singleton_append, basicBody, escape]
    · rfl
    all_goals simp [other]
  · simp [same, codeEscape, basicBody, codeChar_control control]

theorem basicBody_text (cs rest : List Char) :
    basicBody (cs.flatMap escaped ++ '"' :: rest) = some (cs, rest) := by
  induction cs with
  | nil => rfl
  | cons c cs ih => rw [List.flatMap_cons, List.append_assoc, basicBody_escaped, ih]; rfl

theorem literalBody_text {cs : List Char} (plain : ∀ c ∈ cs, isControl c = false)
    (single : '\'' ∉ cs) (rest : List Char) :
    literalBody (cs ++ '\'' :: rest) = some (cs, rest) := by
  induction cs with
  | nil => rfl
  | cons c cs ih =>
    simp only [List.mem_cons, not_or, forall_eq_or_imp] at plain single
    rw [List.cons_append, literalBody, if_neg (by simp [plain.1]), ih plain.2 single.2]
    · rfl
    · exact fun same => single.1 same.symm

/-! ### Texts on several lines -/

theorem endsLine_escape {x c : Char} (escape : plainEscape? x = some c) (rest : List Char) :
    endsLine (x :: rest) = false := by
  rw [plainEscape?.eq_def] at escape
  split at escape
  case h_8 => cases escape
  all_goals rfl

theorem basicLines_escaped (c : Char) (rest : List Char) :
    basicLines false (escaped c ++ rest) = before c (basicLines false rest) := by
  rcases escaped_cases c with ⟨same, plain, quote, slash⟩ | ⟨x, same, escape⟩ | ⟨same, control⟩
  · have noReturn : c ≠ '\r' := ne_of_plain plain (by decide)
    have noEnd : c ≠ '\n' := ne_of_plain plain (by decide)
    rw [same, List.singleton_append, basicLines, if_neg (by simp), if_neg (by simp [plain, slash])]
    all_goals simp [quote, slash, noReturn, noEnd]
  · have other := plainEscape_ne escape
    rw [same, List.cons_append, List.singleton_append, basicLines, endsLine_escape escape, escape]
    · rfl
    all_goals simp [other]
  · simp [same, codeEscape, basicLines, codeChar_control control]

theorem quotes_read {read : List Char → Option (List Char × Rest)} {quote : Char}
    (single : ∀ {rest}, (∀ tail, rest ≠ quote :: quote :: tail) →
      read (quote :: rest) = before quote (read rest))
    {n : Nat} (few : n ≤ 2) {d : Char} (other : d ≠ quote) (rest : List Char) :
    read (List.replicate n quote ++ d :: rest) =
      (read (d :: rest)).map fun r => (List.replicate n quote ++ r.1, r.2) := by
  have one : read (quote :: d :: rest) = before quote (read (d :: rest)) :=
    single (by simp [other])
  match n with
  | 0 => simp
  | 1 => exact one
  | 2 =>
    have two : read (quote :: quote :: d :: rest) = before quote (read (quote :: d :: rest)) :=
      single (by simp [other])
    change read (quote :: quote :: d :: rest) = _
    rw [two, one]
    cases read (d :: rest) <;> rfl

theorem basicLines_quote {rest : List Char} (opens : ∀ tail, rest ≠ '"' :: '"' :: tail) :
    basicLines false ('"' :: rest) = before '"' (basicLines false rest) := by
  rw [basicLines, if_neg (by simp), if_neg (by decide)]
  all_goals simp [opens]

theorem literalLines_quote {rest : List Char} (opens : ∀ tail, rest ≠ '\'' :: '\'' :: tail) :
    literalLines ('\'' :: rest) = before '\'' (literalLines rest) := by
  rw [literalLines, if_neg (by decide)]
  all_goals simp [opens]

theorem escaped_head (c : Char) :
    ∃ d es, escaped c = d :: es ∧ d ≠ '"' ∧ isControl d = false := by
  rcases escaped_cases c with ⟨same, plain, quote, -⟩ | ⟨x, same, -⟩ | ⟨same, -⟩
  · exact ⟨c, [], same, quote, plain⟩
  · exact ⟨'\\', [x], same, by decide, by decide⟩
  · exact ⟨'\\', _, same, by decide, by decide⟩

theorem basicLines_body {n : Nat} (few : n ≤ 2) (cs : List Char) {rest : List Char}
    (unquoted : Unquoted rest) :
    basicLines false (List.replicate n '"' ++ (linesBody n cs ++ '"' :: '"' :: '"' :: rest)) =
      some (List.replicate n '"' ++ cs, rest) := by
  induction cs generalizing n with
  | nil =>
    have double := unquoted.1
    match n with
    | 0 | 1 | 2 => simp [linesBody, basicLines, List.replicate, double]
  | cons c cs ih =>
    have later := ih (n := 0) (by decide)
    rw [List.replicate_zero, List.nil_append, List.nil_append] at later
    have finish : ∀ {d : Char} {tail : List Char}, d ≠ '"' →
        basicLines false (d :: tail) = before c (some (cs, rest)) →
          basicLines false (List.replicate n '"' ++ d :: tail) =
            some (List.replicate n '"' ++ c :: cs, rest) := by
      intro d tail other reads
      rw [quotes_read basicLines_quote few other, reads]
      rfl
    by_cases quote : c = '"'
    · subst quote
      rw [linesBody]
      -- a third quote in a row is escaped, and the count starts again behind it
      split
      · next fewer =>
        have more := ih (n := n + 1) (by omega)
        rw [List.replicate_succ'] at more
        simpa using more
      · refine finish (by decide) ?_
        rw [← later]
        exact basicLines_escaped '"' _
    · by_cases newline : c = '\n'
      · subst newline
        rw [linesBody]
        refine finish (by decide) ?_
        rw [List.append_eq, basicLines, if_neg (by simp), later]
      · obtain ⟨d, es, same, other, -⟩ := escaped_head c
        rw [linesBody, same]
        · refine finish other ?_
          rw [← later, ← basicLines_escaped, same]
          simp
        · exact quote
        · exact newline

theorem le_longestRun (c : Char) (n : Nat) (cs : List Char) : n ≤ longestRun c n cs := by
  induction cs generalizing n with
  | nil => exact Nat.le_refl n
  | cons d cs ih =>
    rw [longestRun]
    split
    · exact Nat.le_trans (Nat.le_succ n) (ih (n + 1))
    · exact Nat.le_max_left _ _

def Lines (cs : List Char) : Prop := ∀ c ∈ cs, c ≠ '\n' → isControl c = false

theorem literalLines_body {n : Nat} {cs : List Char} (few : longestRun '\'' n cs ≤ 2)
    (lines : Lines cs) {rest : List Char} (unquoted : Unquoted rest) :
    literalLines (List.replicate n '\'' ++ (cs ++ '\'' :: '\'' :: '\'' :: rest)) =
      some (List.replicate n '\'' ++ cs, rest) := by
  induction cs generalizing n with
  | nil =>
    have single := unquoted.2
    match n, few with
    | 0, _ | 1, _ | 2, _ => simp [literalLines, List.replicate, single]
  | cons c cs ih =>
    have lines' : Lines cs := fun d member => lines d (List.mem_cons_of_mem c member)
    rw [longestRun] at few
    split at few
    · next quote =>
      subst quote
      have more := ih few lines'
      rw [List.replicate_succ'] at more
      simpa using more
    · next other =>
      have later := ih (Nat.le_trans (Nat.le_max_right _ _) few) lines'
      rw [List.replicate_zero, List.nil_append, List.nil_append] at later
      rw [List.cons_append, quotes_read literalLines_quote (Nat.le_trans (Nat.le_max_left _ _) few)
        other]
      by_cases newline : c = '\n'
      · subst newline
        rw [literalLines, later]
        rfl
      · have plain := lines c (List.mem_cons_self ..) newline
        have noReturn : c ≠ '\r' := ne_of_plain plain (by decide)
        rw [literalLines, if_neg (by simp [plain]), later]
        · rfl
        all_goals simp [other, noReturn, newline]

/-! ### Any style -/

theorem longestRun_pos {c : Char} {cs : List Char} (member : c ∈ cs) (n : Nat) :
    0 < longestRun c n cs := by
  induction cs generalizing n with
  | nil => cases member
  | cons d cs ih =>
    rw [longestRun]
    split
    · exact Nat.lt_of_lt_of_le (Nat.succ_pos n) (le_longestRun c (n + 1) cs)
    · next other =>
      have later : c ∈ cs := (List.mem_cons.mp member).resolve_left (Ne.symm other)
      exact Nat.lt_of_lt_of_le (ih later 0) (Nat.le_max_right _ _)

theorem lines_of_traits {cs : List Char} (held : (Traits.of cs).needsEscape = false) :
    Lines cs := by
  intro c member other
  simp only [Traits.of, List.any_eq_false] at held
  have plain := held c member
  simpa [other] using plain

theorem plain_of_traits {cs : List Char} (held : (Traits.of cs).needsEscape = false)
    (one : (Traits.of cs).newline = false) {c : Char} (member : c ∈ cs) : isControl c = false := by
  refine lines_of_traits held c member ?_
  rintro rfl
  simp [Traits.of, member] at one

theorem not_mem_of_singles {cs : List Char} (none : (Traits.of cs).singles = 0) : '\'' ∉ cs :=
  fun member => absurd none (Nat.ne_of_gt (longestRun_pos member 0))

theorem literal_of_style {cs : List Char} (style : (Traits.of cs).style = .literal) :
    (∀ c ∈ cs, isControl c = false) ∧ '\'' ∉ cs := by
  have held : (Traits.of cs).needsEscape = false ∧ (Traits.of cs).singles = 0 ∧
      (Traits.of cs).newline = false := by
    rw [Traits.style] at style
    grind
  obtain ⟨escape, singles, newline⟩ := held
  exact ⟨fun c => plain_of_traits escape newline, not_mem_of_singles singles⟩

theorem literalLines_of_style {cs : List Char} (style : (Traits.of cs).style = .literalLines) :
    Lines cs ∧ longestRun '\'' 0 cs ≤ 2 := by
  have held : (Traits.of cs).needsEscape = false ∧ (Traits.of cs).singles ≤ 2 := by
    rw [Traits.style] at style
    grind
  exact ⟨lines_of_traits held.1, held.2⟩

theorem string?_quote {quote : Char} {cs : List Char} (one : quote = '"' ∨ quote = '\'')
    (opens : ∀ tail, cs ≠ quote :: quote :: tail) :
    string? (quote :: cs) = lineString (quote :: cs) := by
  rcases one with rfl | rfl
  all_goals
    rw [string?]
    all_goals simp [opens]

theorem lineString_basic (cs rest : List Char) :
    lineString (basicText cs ++ rest) = some (cs, rest) := by
  have text : basicText cs ++ rest = '"' :: (cs.flatMap escaped ++ '"' :: rest) := by
    simp [basicText]
  rw [text]
  exact basicBody_text cs rest

theorem lineString_literal {cs : List Char} (plain : ∀ c ∈ cs, isControl c = false)
    (single : '\'' ∉ cs) (rest : List Char) :
    lineString (literalText cs ++ rest) = some (cs, rest) := by
  have text : literalText cs ++ rest = '\'' :: (cs ++ '\'' :: rest) := by
    simp [literalText]
  rw [text]
  exact literalBody_text plain single rest

theorem string?_basic (cs : List Char) {rest : List Char} (unquoted : Unquoted rest) :
    string? (basicText cs ++ rest) = some (cs, rest) := by
  rw [← lineString_basic]
  refine string?_quote (.inl rfl) ?_
  cases cs with
  | nil => simpa using unquoted.1
  | cons c cs =>
    obtain ⟨d, es, same, other, -⟩ := escaped_head c
    simp [same, other]

theorem string?_literal {cs : List Char} (plain : ∀ c ∈ cs, isControl c = false)
    (single : '\'' ∉ cs) {rest : List Char} (unquoted : Unquoted rest) :
    string? (literalText cs ++ rest) = some (cs, rest) := by
  rw [← lineString_literal plain single]
  refine string?_quote (.inr rfl) ?_
  cases cs with
  | nil => simpa using unquoted.2
  | cons c cs =>
    have other : c ≠ '\'' := fun same => single (same ▸ List.mem_cons_self ..)
    simp [other]

theorem afterOpening_opening {cs body : List Char}
    (starts : '\n' ∉ cs → ∃ d tail, body = d :: tail ∧ isControl d = false) :
    afterOpening (opening cs ++ body) = body := by
  rw [opening]
  split
  · rfl
  · next none =>
    obtain ⟨d, tail, rfl, plain⟩ := starts (by simpa using none)
    have newline : d ≠ '\n' := ne_of_plain plain (by decide)
    have return' : d ≠ '\r' := ne_of_plain plain (by decide)
    rw [List.nil_append, afterOpening]
    all_goals simp [newline, return']

theorem string?_basicLines (cs : List Char) {rest : List Char} (unquoted : Unquoted rest) :
    string? (basicLinesText cs ++ rest) = some (cs, rest) := by
  have read := basicLines_body (Nat.zero_le 2) cs unquoted
  have text : basicLinesText cs ++ rest = '"' :: '"' :: '"' ::
      (opening cs ++ (linesBody 0 cs ++ '"' :: '"' :: '"' :: rest)) := by
    simp [basicLinesText]
  rw [text, string?, afterOpening_opening]
  · exact read
  · intro none
    cases cs with
    | nil => exact ⟨'"', _, rfl, by decide⟩
    | cons c cs =>
      by_cases quote : c = '"'
      · subst quote
        exact ⟨'"', _, rfl, by decide⟩
      · obtain ⟨d, es, same, -, plain⟩ := escaped_head c
        have newline : c ≠ '\n' := fun same => none (same ▸ List.mem_cons_self ..)
        rw [linesBody, same]
        · exact ⟨d, _, rfl, plain⟩
        · exact quote
        · exact newline

theorem string?_literalLines {cs : List Char} (few : longestRun '\'' 0 cs ≤ 2) (lines : Lines cs)
    {rest : List Char} (unquoted : Unquoted rest) :
    string? (literalLinesText cs ++ rest) = some (cs, rest) := by
  have read := literalLines_body few lines unquoted
  have text : literalLinesText cs ++ rest = '\'' :: '\'' :: '\'' ::
      (opening cs ++ (cs ++ '\'' :: '\'' :: '\'' :: rest)) := by
    simp [literalLinesText]
  rw [text, string?, afterOpening_opening]
  · exact read
  · intro none
    cases cs with
    | nil => exact ⟨'\'', _, rfl, by decide⟩
    | cons c cs =>
      have newline : c ≠ '\n' := fun same => none (same ▸ List.mem_cons_self ..)
      exact ⟨c, _, rfl, lines c (List.mem_cons_self ..) newline⟩

theorem string?_renderText (s : String) {rest : List Char} (unquoted : Unquoted rest) :
    string? (renderText s ++ rest) = some (s.toList, rest) := by
  rw [renderText]
  cases style : (Traits.of s.toList).style with
  | basic => exact string?_basic s.toList unquoted
  | literal =>
    obtain ⟨plain, single⟩ := literal_of_style style
    exact string?_literal plain single unquoted
  | basicLines => exact string?_basicLines s.toList unquoted
  | literalLines =>
    obtain ⟨lines, few⟩ := literalLines_of_style style
    exact string?_literalLines few lines unquoted

end DataReach.Toml
