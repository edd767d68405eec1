import DataReach.Proofs.Toml.Text
import DataReach.Toml.Reader
import Mathlib.Data.List.TakeWhile
/-! Written numbers read back. Their digits are one word, which is no date and no time. -/

namespace DataReach.Toml

/-! ### Digits -/

theorem toDigits_leading {n : Nat} (some : 0 < n) :
    ∃ d ds, Nat.toDigits 10 n = d :: ds ∧ d ≠ '0' := by
  induction n using Nat.strong_induction_on with
  | h n ih =>
    by_cases small : n < 10
    · rw [Nat.toDigits_of_lt_base small]
      have digit : ∀ m < 10, 0 < m → Nat.digitChar m ≠ '0' := by decide
      exact ⟨_, [], rfl, digit n small some⟩
    · have large : 10 ≤ n := Nat.le_of_not_lt small
      obtain ⟨d, ds, same, leading⟩ := ih (n / 10) (by omega) (by omega)
      rw [Nat.toDigits_of_base_le (by decide) large, same]
      exact ⟨d, _, rfl, leading⟩

theorem digitRun_digits {c : Char} {cs : List Char} (digits : ∀ d ∈ c :: cs, d.isDigit = true) :
    digitRun Char.isDigit (c :: cs) = some (c :: cs) := by
  induction cs generalizing c with
  | nil => rw [digitRun, if_pos (digits c (List.mem_singleton_self c))]
  | cons d cs ih =>
    have first := digits c (List.mem_cons_self ..)
    have rest : ∀ e ∈ d :: cs, e.isDigit = true := fun e member =>
      digits e (List.mem_cons_of_mem c member)
    have plain : d ≠ '_' := ne_of_test (rest d (List.mem_cons_self ..)) (by decide)
    rw [digitRun, if_pos first, ih rest]
    · rfl
    · simp [plain]

theorem ofDigits_digits {cs : List Char} (digits : ∀ c ∈ cs, c.isDigit = true) :
    ofDigits 10 cs = Nat.ofDigitChars 10 cs 0 := by
  have each : ∀ n, cs.foldl (fun n c => 10 * n + (hexDigit? c).getD 0) n =
      Nat.ofDigitChars 10 cs n := by
    induction cs with
    | nil => exact fun n => rfl
    | cons c cs ih =>
      intro n
      have first : hexDigit? c = some (c.toNat - '0'.toNat) :=
        if_pos (digits c (List.mem_cons_self ..))
      have rest := ih fun d member => digits d (List.mem_cons_of_mem c member)
      rw [List.foldl_cons, rest, first, Nat.ofDigitChars_cons]
      rfl
  exact each 0

theorem isDigit_renderNat {n : Nat} {c : Char} (member : c ∈ renderNat n) : c.isDigit = true := by
  rw [renderNat, Nat.toList_repr] at member
  exact Nat.isDigit_of_mem_toDigits (by decide) (by decide) member

theorem renderNat_cons (n : Nat) : ∃ d ds, renderNat n = d :: ds := by
  rw [renderNat, Nat.toList_repr]
  exact List.exists_cons_of_ne_nil Nat.toDigits_ne_nil

/-! ### Words of digits -/

section Word

variable {cs : List Char}

theorem sign_digits (digits : ∀ c ∈ cs, c.isDigit = true) : sign cs = (false, cs) := by
  rw [sign.eq_def]
  split
  · exact absurd (digits '-' (by simp)) (by decide)
  · exact absurd (digits '+' (by simp)) (by decide)
  · rfl

theorem date?_digits (digits : ∀ c ∈ cs, c.isDigit = true) : date? cs = none := by
  rw [date?.eq_def]
  split
  · exact absurd (digits '-' (by simp)) (by decide)
  · rfl

theorem time?_digits (digits : ∀ c ∈ cs, c.isDigit = true) : time? cs = none := by
  rw [time?.eq_def]
  split
  · exact absurd (digits ':' (by simp)) (by decide)
  · rfl

theorem decimalRun_renderNat (n : Nat) : decimalRun (renderNat n) = some (renderNat n) := by
  have digits : ∀ c ∈ renderNat n, c.isDigit = true := fun c => isDigit_renderNat
  rcases Nat.eq_zero_or_pos n with rfl | some
  · rfl
  · obtain ⟨d, ds, same, leading⟩ := toDigits_leading some
    rw [renderNat, Nat.toList_repr, same] at digits ⊢
    rw [decimalRun, digitRun_digits digits]
    simp [leading]

theorem integer?_renderNat {n : Nat} (small : n < 1 <<< 63) :
    integer? (renderNat n) = some (n : Int) := by
  have digits : ∀ c ∈ renderNat n, c.isDigit = true := fun c => isDigit_renderNat
  have value : ofDigits 10 (renderNat n) = n := by
    rw [ofDigits_digits digits, renderNat, Nat.toList_repr, Nat.ofDigitChars_ten_toDigits]
  rw [integer?]
  · rw [sign_digits digits]
    simp only [decimalRun_renderNat, Option.bind_eq_bind, Option.bind_some, value]
    exact if_pos small
  all_goals
    intro rest prefixed
    rw [prefixed] at digits
  · exact absurd (digits 'x' (by simp)) (by decide)
  · exact absurd (digits 'o' (by simp)) (by decide)
  · exact absurd (digits 'b' (by simp)) (by decide)

theorem wordValue_renderNat {n : Nat} (small : n < 1 <<< 63) :
    wordValue (renderNat n) = some (.integer n) := by
  have digits : ∀ c ∈ renderNat n, c.isDigit = true := fun c => isDigit_renderNat
  have noTrue : renderNat n ≠ "true".toList := fun same =>
    absurd (digits 't' (by simp [same])) (by decide)
  have noFalse : renderNat n ≠ "false".toList := fun same =>
    absurd (digits 'f' (by simp [same])) (by decide)
  have noTime : datetime? (renderNat n) = none := by
    rw [datetime?, date?_digits digits, time?_digits digits]
  rw [wordValue, if_neg (by simpa using noTrue), if_neg (by simpa using noFalse), noTime,
    integer?_renderNat small]

theorem wordOf_renderNat {n : Nat} (small : n < 1 <<< 63) (rest : List Char) :
    wordOf (renderNat n ++ '\n' :: rest) = some (.integer n, '\n' :: rest) := by
  have digits : ∀ c ∈ renderNat n, isWordChar c = true := fun c member => by
    simp [isWordChar, Char.isAlphanum, isDigit_renderNat member]
  have split : word (renderNat n ++ '\n' :: rest) = (renderNat n, '\n' :: rest) := by
    rw [word, List.takeWhile_append_of_pos digits, List.dropWhile_append_of_pos digits]
    simp [isWordChar]
  have noTime : spacedTime (renderNat n) ('\n' :: rest) = none := by
    rw [spacedTime]
    simp
  rw [wordOf, split]
  simp only [noTime, Option.getD_none, wordValue_renderNat small, Option.bind_eq_bind,
    Option.bind_some]
  rfl

end Word

end DataReach.Toml
