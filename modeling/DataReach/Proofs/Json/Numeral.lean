import DataReach.Json.Record
import DataReach.Json.Written
import DataReach.Proofs.Float.Rounding
import Mathlib.Tactic.NormNum
/-!
Every finite double can be read once it has been written. The numeral stands for a number that is at
most half a unit above the double, and reading it rounds up by too little to reach infinity.
-/

namespace DataReach

namespace Decimal

def Scientific.value (d : Scientific) : ℚ := d.digits * 10 ^ d.exponent

theorem zpow_toNat (e : Int) : (10 : ℚ) ^ e * 10 ^ (-e).toNat = 10 ^ e.toNat := by
  have split : e + ((-e).toNat : Int) = e.toNat := by omega
  rw [← zpow_natCast, ← zpow_natCast, ← zpow_add₀ (by norm_num), split]

theorem value_le_of_contains {s : Span} {d : Scientific} (inside : s.contains d = true) :
    d.value * 2 ^ s.down ≤ s.high := by
  have bound : d.digits * 10 ^ d.exponent.toNat * 2 ^ s.down ≤
      s.high * 10 ^ (-d.exponent).toNat := by
    have den : s.den = 2 ^ s.down := by rw [Span.den, Nat.one_shiftLeft]
    have given := inside
    simp only [Span.contains, Nat.pow_eq, den] at given
    split at given
    · simp only [Bool.and_eq_true, decide_eq_true_eq] at given
      exact given.2
    · simp only [Bool.and_eq_true, decide_eq_true_eq] at given
      exact given.2.le
  have cast : (d.digits : ℚ) * 10 ^ d.exponent.toNat * 2 ^ s.down ≤
      s.high * 10 ^ (-d.exponent).toNat := by exact_mod_cast bound
  have scale : (0 : ℚ) < 10 ^ (-d.exponent).toNat := by positivity
  apply le_of_mul_le_mul_right _ scale
  calc
    d.value * 2 ^ s.down * 10 ^ (-d.exponent).toNat =
        d.digits * (10 ^ d.exponent * 10 ^ (-d.exponent).toNat) * 2 ^ s.down := by
      rw [Scientific.value]
      ring
    _ = d.digits * 10 ^ d.exponent.toNat * 2 ^ s.down := by rw [zpow_toNat]
    _ ≤ s.high * 10 ^ (-d.exponent).toNat := cast

theorem value_middle (s : Span) : s.middle.value * 2 ^ s.down = s.mid := by
  have ten : (10 : ℚ) ^ s.down = 2 ^ s.down * 5 ^ s.down := by
    rw [← mul_pow]
    norm_num
  have some : (10 : ℚ) ^ s.down ≠ 0 := by positivity
  calc
    s.middle.value * 2 ^ s.down = s.mid * (2 ^ s.down * 5 ^ s.down) * ((10 : ℚ) ^ s.down)⁻¹ := by
      simp only [Span.middle, Scientific.value, Nat.pow_eq, zpow_neg, zpow_natCast]
      push_cast
      ring
    _ = s.mid := by rw [← ten, mul_assoc, mul_inv_cancel₀ some, mul_one]

theorem value_shortest_le {s : Span} (ordered : s.mid ≤ s.high) :
    s.shortest.value * 2 ^ s.down ≤ s.high := by
  simp only [Span.shortest]
  cases found : (List.range (Span.maxDigits + 1)).findSome? fun i : Nat =>
      s.onGrid? (s.leading + 1 - i) with
  | none =>
    rw [Option.getD_none, value_middle]
    exact_mod_cast ordered
  | some d =>
    obtain ⟨i, -, grid⟩ := List.exists_of_findSome?_eq_some found
    exact value_le_of_contains (List.find?_some grid)

theorem Dyadic.value_shortest_le (v : Dyadic) :
    v.shortest.value * 2 ^ v.down ≤ (v.mantissa + 1 / 2) * 2 ^ v.up := by
  rw [Dyadic.shortest]
  split
  · have zero : Scientific.value ⟨0, 0⟩ = 0 := by simp [Scientific.value]
    rw [zero, zero_mul]
    positivity
  · have ordered : v.span.mid ≤ v.span.high := by
      simp only [Dyadic.span, Nat.shiftLeft_eq]
      exact Nat.mul_le_mul_right _ (by omega)
    have bound := Decimal.value_shortest_le ordered
    have high : (v.span.high : ℚ) = 4 * ((v.mantissa + 1 / 2) * 2 ^ v.up) := by
      simp only [Dyadic.span, Nat.shiftLeft_eq]
      push_cast
      ring
    have down : (2 : ℚ) ^ v.span.down = 4 * 2 ^ v.down := by
      rw [Dyadic.span, pow_add]
      ring
    rw [high, down] at bound
    linarith

end Decimal

namespace Json.Numeral

section Digits

theorem ofDigitChars_lt {cs : List Char} (digits : ∀ c ∈ cs, c.isDigit = true) :
    Nat.ofDigitChars 10 cs 0 < 10 ^ cs.length := by
  induction cs with
  | nil => simp
  | cons c rest ih =>
    have first : c.toNat - '0'.toNat ≤ 9 := by
      have digit := digits c (List.mem_cons_self ..)
      simp only [Char.isDigit, Bool.and_eq_true, decide_eq_true_eq] at digit
      have most : c.toNat ≤ 57 := UInt32.le_iff_toNat_le.mp digit.2
      change c.toNat - 48 ≤ 9
      omega
    have others := ih fun d later => digits d (List.mem_cons_of_mem c later)
    rw [Nat.ofDigitChars_cons, Nat.ofDigitChars_eq_ofDigitChars_zero, List.length_cons, Nat.pow_succ]
    calc
      10 ^ rest.length * (10 * 0 + (c.toNat - '0'.toNat)) + Nat.ofDigitChars 10 rest 0 <
          10 ^ rest.length * 9 + 10 ^ rest.length :=
        Nat.add_lt_add_of_le_of_lt (Nat.mul_le_mul_left _ (by omega)) others
      _ = 10 ^ rest.length * 10 := by ring

theorem le_ofDigitChars (cs : List Char) (v : Nat) :
    v * 10 ^ cs.length ≤ Nat.ofDigitChars 10 cs v := by
  rw [Nat.ofDigitChars_eq_ofDigitChars_zero, Nat.mul_comm]
  exact Nat.le_add_right _ _

theorem gatherWhole_eq {cs : List Char} {v : Nat}
    (fits : Nat.ofDigitChars 10 cs v < UInt64.size) :
    gatherWhole ⟨v, 0⟩ cs = ⟨Nat.ofDigitChars 10 cs v, 0⟩ := by
  induction cs generalizing v with
  | nil => simp [gatherWhole]
  | cons c rest ih =>
    rw [Nat.ofDigitChars_cons] at fits ⊢
    have next : 10 * v + (c.toNat - '0'.toNat) < UInt64.size := by
      have least := le_ofDigitChars rest (10 * v + (c.toNat - '0'.toNat))
      have more : 10 * v + (c.toNat - '0'.toNat) ≤
          (10 * v + (c.toNat - '0'.toNat)) * 10 ^ rest.length :=
        Nat.le_mul_of_pos_right _ (by positivity)
      omega
    rw [gatherWhole, ← ih fits]
    simp only [digitValue, fits64, next, decide_true, Bool.and_true, if_true]

theorem gatherFraction_le {cs : List Char} {v : Nat} (fits : v < UInt64.size) :
    (gatherFraction v cs).1 < UInt64.size ∧ (gatherFraction v cs).2 ≤ cs.length ∧
      (gatherFraction v cs).1 * 10 ^ (cs.length - (gatherFraction v cs).2) ≤
        Nat.ofDigitChars 10 cs v := by
  induction cs generalizing v with
  | nil => exact ⟨fits, by simp [gatherFraction], by simp [gatherFraction]⟩
  | cons c rest ih =>
    rw [gatherFraction]
    split
    · next more =>
      obtain ⟨small, taken, least⟩ := ih (of_decide_eq_true more)
      refine ⟨small, Nat.succ_le_succ taken, ?_⟩
      rw [List.length_cons, Nat.ofDigitChars_cons, Nat.add_sub_add_right]
      exact least
    · exact ⟨fits, Nat.zero_le _, le_ofDigitChars (c :: rest) v⟩

end Digits

section Scaling

open Binary64
open Float.Model.UnpackedFloat (pack unpack roundWithAccuracy ofScientific)

theorem pow_lt_ceiling {e : Nat} (small : e ≤ maxPower) : (10 : ℚ) ^ e < ceiling := by
  have nat : 10 ^ 308 < 2 ^ 971 * (2 ^ 53 - 1) := by decide +kernel
  have cast := Nat.cast_lt (α := ℚ).mpr nat
  have unit : (0 : ℚ) < 2 ^ (971 : Int) := zpow_pos two_pos 971
  rw [Nat.cast_pow, Nat.cast_mul, Nat.cast_pow, Nat.cast_pred (by decide), Nat.cast_pow] at cast
  calc
    (10 : ℚ) ^ e ≤ 10 ^ 308 := pow_le_pow_right₀ (by norm_num) small
    _ < 2 ^ (971 : Int) * (2 ^ (53 : Int) - 1) := cast
    _ < 2 ^ (971 : Int) * (2 ^ (53 : Int) - 1 / 2) :=
      mul_lt_mul_of_pos_left (by norm_num) unit
    _ = ceiling := ceiling_eq.symm

theorem powerOfTen_size {e : Nat} (small : e ≤ maxPower) :
    (powerOfTen e).isInf = false ∧
      size (powerOfTen e).toModel.unpack ≤ 10 ^ e * (1 + 2 ^ (-53 : Int)) := by
  by_cases listed : e ≤ 22
  · have exact : ∀ e ≤ 22, (powerOfTen e).isInf = false ∧
        size (powerOfTen e).toModel.unpack = 10 ^ e := by decide +kernel
    have one : (1 : ℚ) ≤ 1 + 2 ^ (-53 : Int) := by norm_num
    refine ⟨(exact e listed).1, ?_⟩
    rw [(exact e listed).2]
    exact le_mul_of_one_le_right (by positivity) one
  · have within : ¬ (e : Int) > 2 ^ 11 := by
      rw [maxPower] at small
      omega
    have rounded : (powerOfTen e).toModel.unpack = unpack .binary64 (pack .binary64
        (roundWithAccuracy .binary64 .positive (1 <<< 53 * 10 ^ e) (-53 + 0) .exact)) := by
      rw [powerOfTen, Float.ofScientific, dif_neg (fun fast => listed fast.2)]
      change unpack .binary64 (pack .binary64 (ofScientific .binary64 1 e)) = _
      have above : ¬ (e : Int) < -((2 ^ 11 : Int) + Nat.log2 1) := by omega
      rw [ofScientific, dif_neg one_ne_zero, if_neg within, if_neg above, if_pos e.cast_nonneg]
      rfl
    have value : ((1 <<< 53 * 10 ^ e : Nat) : ℚ) * 2 ^ (-53 + 0 : Int) = 10 ^ e := by
      rw [Nat.one_shiftLeft, Nat.cast_mul, Nat.cast_pow, Nat.cast_pow]
      norm_num
      ring
    have pos : 0 < 1 <<< 53 * 10 ^ e := Nat.mul_pos (by decide) (by positivity)
    have below := value.trans_lt (pow_lt_ceiling small)
    have packed := @unpack_pack_round .positive _ _ pos (by rw [topExponent]; omega) below
    have grown := @size_round_le _ (-53 + 0) .positive pos (by omega)
    rw [value] at grown
    change (powerOfTen e).toModel.unpack.isInf = false ∧ _
    rw [rounded]
    exact ⟨packed.1, packed.2.trans grown⟩

def limit : ℚ := 2 ^ (971 : Int) * (2 ^ (53 : Int) - 5 / 2)

theorem limit_rounded : limit * (1 + 2 ^ (-53 : Int)) * (1 + 2 ^ (-53 : Int)) < ceiling := by
  have unit : (0 : ℚ) < 2 ^ (971 : Int) := zpow_pos two_pos 971
  have less : ((2 : ℚ) ^ (53 : Int) - 5 / 2) * (1 + 2 ^ (-53 : Int)) * (1 + 2 ^ (-53 : Int)) <
      2 ^ (53 : Int) - 1 / 2 := by norm_num
  rw [ceiling_eq, limit, mul_assoc, mul_assoc, ← mul_assoc (_ - _)]
  exact mul_lt_mul_of_pos_left less unit

theorem limit_lt_pow {e : Nat} (great : maxPower < e) : limit < 10 ^ e := by
  have power : (2 : ℚ) ^ (971 : Int) * 2 ^ (53 : Int) ≤ 10 ^ 309 := by
    have nat : 2 ^ 971 * 2 ^ 53 ≤ 10 ^ 309 := by decide +kernel
    have cast := Nat.cast_le (α := ℚ).mpr nat
    rwa [Nat.cast_mul, Nat.cast_pow, Nat.cast_pow, Nat.cast_pow] at cast
  have unit : (0 : ℚ) < 2 ^ (971 : Int) * (5 / 2) :=
    mul_pos (zpow_pos two_pos 971) (by norm_num)
  calc
    limit = 2 ^ (971 : Int) * 2 ^ (53 : Int) - 2 ^ (971 : Int) * (5 / 2) := mul_sub ..
    _ < 2 ^ (971 : Int) * 2 ^ (53 : Int) := sub_lt_self _ unit
    _ ≤ 10 ^ 309 := power
    _ ≤ 10 ^ e := pow_le_pow_right₀ (by norm_num) great

theorem scaleUp_some {n e : Nat} (fits : n < UInt64.size) (bound : (n : ℚ) * 10 ^ e ≤ limit) :
    ∃ y, scaleUp n.toUInt64.toFloat e = some y := by
  rw [scaleUp]
  by_cases small : e ≤ maxPower
  · obtain ⟨finite, size⟩ := toFloat_size fits
    obtain ⟨finite', power⟩ := powerOfTen_size small
    have grown : (0 : ℚ) ≤ 1 + 2 ^ (-53 : Int) := by norm_num
    have below : Binary64.size n.toUInt64.toFloat.toModel.unpack *
        Binary64.size (powerOfTen e).toModel.unpack < ceiling := by
      calc
        Binary64.size n.toUInt64.toFloat.toModel.unpack *
            Binary64.size (powerOfTen e).toModel.unpack ≤
            n * (1 + 2 ^ (-53 : Int)) * (10 ^ e * (1 + 2 ^ (-53 : Int))) :=
          mul_le_mul size power (size_nonneg _) (mul_nonneg n.cast_nonneg grown)
        _ = n * 10 ^ e * (1 + 2 ^ (-53 : Int)) * (1 + 2 ^ (-53 : Int)) := by ring
        _ ≤ limit * (1 + 2 ^ (-53 : Int)) * (1 + 2 ^ (-53 : Int)) := by gcongr
        _ < ceiling := limit_rounded
    have product := isInf_mul finite finite' below
    refine ⟨n.toUInt64.toFloat * powerOfTen e, ?_⟩
    rw [if_pos small]
    simp only [product, Bool.false_eq_true, if_false]
  · have great : limit < 10 ^ e := limit_lt_pow (Nat.not_le.mp small)
    have zero : n = 0 := by
      by_contra some
      have one : (1 : ℚ) ≤ n := by exact_mod_cast Nat.pos_of_ne_zero some
      have more : (10 : ℚ) ^ e ≤ n * 10 ^ e := le_mul_of_one_le_left (by positivity) one
      linarith
    subst zero
    have equal : ((0 : Nat).toUInt64.toFloat == 0) = true := by decide +kernel
    rw [if_neg small, if_pos equal]
    exact ⟨_, rfl⟩

theorem scale_some {n : Nat} {e : Int} (fits : n < UInt64.size) (bound : (n : ℚ) * 10 ^ e ≤ limit) :
    ∃ y, scale n.toUInt64.toFloat e = some y := by
  rw [scale]
  split
  · next up =>
    apply scaleUp_some fits
    rwa [← zpow_natCast, Int.toNat_of_nonneg up]
  · exact ⟨_, rfl⟩

end Scaling

section Shapes

variable {cs : List Char}

def Shape.Readable (s : Shape) : Prop := ∃ n, s.value = some n

theorem gatherWhole_short (digits : ∀ c ∈ cs, c.isDigit = true) (short : cs.length ≤ 16) :
    gatherWhole ⟨0, 0⟩ cs = ⟨Nat.ofDigitChars 10 cs 0, 0⟩ ∧
      Nat.ofDigitChars 10 cs 0 < UInt64.size := by
  have fits : Nat.ofDigitChars 10 cs 0 < UInt64.size := by
    calc
      Nat.ofDigitChars 10 cs 0 < 10 ^ cs.length := ofDigitChars_lt digits
      _ ≤ 10 ^ 16 := Nat.pow_le_pow_right (by decide) short
      _ < UInt64.size := by decide
  exact ⟨gatherWhole_eq fits, fits⟩

theorem word_le_limit {n : Nat} (fits : n < UInt64.size) : (n : ℚ) ≤ limit := by
  have cast : (n : ℚ) ≤ 2 ^ (64 : Int) := by exact_mod_cast fits.le
  have unit : (2 : ℚ) ^ (64 : Int) ≤ 2 ^ (971 : Int) := zpow_le_zpow_right₀ one_le_two (by omega)
  have many : (1 : ℚ) ≤ 2 ^ (53 : Int) - 5 / 2 := by norm_num
  calc
    (n : ℚ) ≤ 2 ^ (64 : Int) := cast
    _ ≤ 2 ^ (971 : Int) := unit
    _ ≤ limit := le_mul_of_one_le_right (zpow_nonneg zero_le_two 971) many

theorem readable_pointed (negative : Bool) (digits : ∀ c ∈ cs, c.isDigit = true)
    (short : cs.length ≤ 16) (fraction : List Char) :
    Shape.Readable ⟨negative, cs, some fraction, none⟩ := by
  obtain ⟨gathered, fits⟩ := gatherWhole_short digits short
  obtain ⟨small, -, -⟩ := @gatherFraction_le fraction _ fits
  generalize Nat.ofDigitChars 10 cs 0 = v at *
  rcases taken : gatherFraction v fraction with ⟨w, t⟩
  rw [taken] at small
  have bound : (w : ℚ) * 10 ^ (((0 : Nat) : Int) - t) ≤ limit := by
    have down : (10 : ℚ) ^ (((0 : Nat) : Int) - t) ≤ 1 :=
      zpow_le_one_of_nonpos₀ (by norm_num) (by omega)
    exact (mul_le_of_le_one_right w.cast_nonneg down).trans (word_le_limit small)
  obtain ⟨y, scaled⟩ := scale_some small bound
  refine ⟨.float (signed negative y), ?_⟩
  simp only [Shape.value, gathered, Option.getD_some, taken, scaled, Option.map_some]

theorem pow_le_of_digits {n : Nat} (some : n ≠ 0) : 10 ^ ((Nat.toDigits 10 n).length - 1) ≤ n := by
  by_contra less
  have pos : 0 < (Nat.toDigits 10 n).length := List.length_pos_of_ne_nil Nat.toDigits_ne_nil
  by_cases single : (Nat.toDigits 10 n).length = 1
  · rw [single] at less
    omega
  · have fewer := (Nat.length_toDigits_le_iff (by decide) (by omega)).mpr (Nat.not_le.mp less)
    omega

theorem leading_le {d : Decimal.Scientific} (bound : d.value ≤ limit) (some : d.digits ≠ 0) :
    (Nat.toDigits 10 d.digits).length + d.exponent - 1 ≤ maxPower := by
  have pos : 0 < (Nat.toDigits 10 d.digits).length :=
    List.length_pos_of_ne_nil Nat.toDigits_ne_nil
  have least : (10 : ℚ) ^ ((Nat.toDigits 10 d.digits).length - 1) ≤ d.digits := by
    exact_mod_cast pow_le_of_digits some
  by_contra beyond
  obtain ⟨e, leading⟩ : ∃ e : Nat, (Nat.toDigits 10 d.digits).length + d.exponent - 1 = e :=
    ⟨_, (Int.toNat_of_nonneg (by omega)).symm⟩
  have split : (e : Int) = (((Nat.toDigits 10 d.digits).length - 1 : Nat) : Int) + d.exponent := by
    omega
  have reached : (10 : ℚ) ^ e ≤ limit := by
    calc
      (10 : ℚ) ^ e = 10 ^ ((Nat.toDigits 10 d.digits).length - 1) * 10 ^ d.exponent := by
        rw [← zpow_natCast, split, zpow_add₀ (by norm_num), zpow_natCast]
      _ ≤ d.digits * 10 ^ d.exponent := mul_le_mul_of_nonneg_right least (by positivity)
      _ ≤ limit := bound
  exact absurd reached (not_le.mpr (limit_lt_pow (by omega)))

/-- The first digit and those of the fraction that are gathered stand for no more than all. -/
theorem gathered_le {n w t : Nat} (taken : gatherFraction
      (Nat.ofDigitChars 10 ((Nat.toDigits 10 n).take 1) 0) ((Nat.toDigits 10 n).drop 1) = (w, t))
    (fits : Nat.ofDigitChars 10 ((Nat.toDigits 10 n).take 1) 0 < UInt64.size) :
    w < UInt64.size ∧ t ≤ (Nat.toDigits 10 n).length - 1 ∧
      w * 10 ^ ((Nat.toDigits 10 n).length - 1 - t) ≤ n := by
  have facts := @gatherFraction_le ((Nat.toDigits 10 n).drop 1) _ fits
  rwa [taken, ← Nat.ofDigitChars_append, List.take_append_drop, Nat.ofDigitChars_ten_toDigits,
    List.length_drop] at facts

section Exponent

variable {d : Decimal.Scientific} {w t : Nat} {exponent : Int}

theorem scaled_le (bound : d.value ≤ limit) (few : t ≤ (Nat.toDigits 10 d.digits).length - 1)
    (least : w * 10 ^ ((Nat.toDigits 10 d.digits).length - 1 - t) ≤ d.digits)
    (first : exponent = (Nat.toDigits 10 d.digits).length + d.exponent - 1) :
    (w : ℚ) * 10 ^ (exponent - t) ≤ limit := by
  have pos : 0 < (Nat.toDigits 10 d.digits).length :=
    List.length_pos_of_ne_nil Nat.toDigits_ne_nil
  have split : exponent - t = (((Nat.toDigits 10 d.digits).length - 1 - t : Nat) : Int) +
      d.exponent := by omega
  have cast : (w : ℚ) * 10 ^ ((Nat.toDigits 10 d.digits).length - 1 - t) ≤ d.digits := by
    exact_mod_cast least
  calc
    (w : ℚ) * 10 ^ (exponent - t) =
        w * 10 ^ ((Nat.toDigits 10 d.digits).length - 1 - t) * 10 ^ d.exponent := by
      rw [split, zpow_add₀ (by norm_num), zpow_natCast, mul_assoc]
    _ ≤ d.digits * 10 ^ d.exponent := mul_le_mul_of_nonneg_right cast (by positivity)
    _ ≤ limit := bound

theorem vanishes_of_far (bound : d.value ≤ limit)
    (least : w * 10 ^ ((Nat.toDigits 10 d.digits).length - 1 - t) ≤ d.digits)
    (first : exponent = (Nat.toDigits 10 d.digits).length + d.exponent - 1)
    (far : maxExponent < exponent.natAbs) : w = 0 ∨ exponent < 0 := by
  by_cases zero : w = 0
  · exact .inl zero
  · -- A digit so far before the point would be beyond all doubles.
    have some : d.digits ≠ 0 := by
      intro none
      rw [none, Nat.le_zero, Nat.mul_eq_zero] at least
      exact least.elim zero (Nat.ne_of_gt (Nat.pow_pos (by decide)))
    have near := leading_le bound some
    simp only [maxExponent, maxPower] at far near
    exact .inr (by omega)

theorem readable_exponent (negative : Bool) (bound : d.value ≤ limit)
    {fraction : Option (List Char)}
    (rest : fraction.getD [] = (Nat.toDigits 10 d.digits).drop 1)
    (first : exponent = (Nat.toDigits 10 d.digits).length + d.exponent - 1) :
    Shape.Readable ⟨negative, (Nat.toDigits 10 d.digits).take 1, fraction,
      some (exponent < 0, Nat.toDigits 10 exponent.natAbs)⟩ := by
  have digits : ∀ c ∈ (Nat.toDigits 10 d.digits).take 1, c.isDigit = true := by
    intro c member
    exact Nat.isDigit_of_mem_toDigits (by decide) (by decide) (List.mem_of_mem_take member)
  have short : ((Nat.toDigits 10 d.digits).take 1).length ≤ 16 := by
    rw [List.length_take]
    omega
  obtain ⟨gathered, fits⟩ := gatherWhole_short digits short
  rcases taken : gatherFraction (Nat.ofDigitChars 10 ((Nat.toDigits 10 d.digits).take 1) 0)
    ((Nat.toDigits 10 d.digits).drop 1) with ⟨w, t⟩
  obtain ⟨small, few, least⟩ := gathered_le taken fits
  have exponentRead : (Nat.toDigits 10 exponent.natAbs).foldl
      (fun acc c => 10 * acc + digitValue c) 0 = exponent.natAbs :=
    Nat.ofDigitChars_ten_toDigits
  simp only [Shape.Readable, Shape.value, gathered, rest, taken, exponentRead]
  by_cases far : maxExponent < exponent.natAbs
  · have nothing : (decide (w = 0) || decide (exponent < 0)) = true := by
      simpa using vanishes_of_far bound least first far
    rw [if_pos far, if_pos nothing]
    exact ⟨_, rfl⟩
  · have total : (if decide (exponent < 0) = true then ((0 : Nat) : Int) - t - exponent.natAbs
        else ((0 : Nat) : Int) - t + exponent.natAbs) = exponent - t := by
      split
      · next down =>
        have sign := of_decide_eq_true down
        omega
      · next up =>
        have sign : ¬ exponent < 0 := fun down => up (decide_eq_true down)
        omega
    obtain ⟨y, found⟩ := scale_some small (scaled_le bound few least first)
    rw [if_neg far, total, found]
    exact ⟨_, rfl⟩

end Exponent

theorem readable_ofDecimal (negative : Bool) {d : Decimal.Scientific} (bound : d.value ≤ limit) :
    (Shape.ofDecimal negative d).Readable := by
  unfold Shape.ofDecimal
  extract_lets digits point fraction exponent
  have isDigit : ∀ c ∈ digits, c.isDigit = true := by
    intro c member
    exact Nat.isDigit_of_mem_toDigits (by decide) (by decide) member
  split
  · next whole =>
    rw [Bool.and_eq_true, decide_eq_true_eq, decide_eq_true_eq, maxWholePlaces] at whole
    refine readable_pointed negative ?_ ?_ _
    · intro c member
      rcases List.mem_append.mp member with own | zero
      · exact isDigit c own
      · rw [List.eq_of_mem_replicate zero]
        rfl
    · rw [List.length_append, zeros, List.length_replicate]
      omega
  · split
    · next inside =>
      rw [Bool.and_eq_true, decide_eq_true_eq, decide_eq_true_eq, maxWholePlaces] at inside
      refine readable_pointed negative (fun c member => isDigit c (List.mem_of_mem_take member)) ?_ _
      rw [List.length_take]
      omega
    · split
      · exact readable_pointed negative (by simp) (by simp) _
      · have rest : fraction.getD [] = digits.drop 1 := by
          by_cases single : digits.length = 1
          · simp only [fraction, if_pos single, Option.getD_none]
            exact (List.drop_eq_nil_of_le single.le).symm
          · simp only [fraction, if_neg single, Option.getD_some]
        exact readable_exponent negative bound rest rfl

end Shapes

section Doubles

theorem exponent_ne {x : Float} (finite : x.isFinite = true) :
    (x.toBits.toNat >>> 52) % 2048 ≠ 2047 := by
  intro top
  change (Float.Model.UnpackedFloat.unpackExponent x.toModel.toBits.toBitVec :
    BitVec Float.Model.Format.binary64.exponentBits).toNat = 2047 at top
  rcases Binary64.unpack_cases x.toModel.toBits.toBitVec with ⟨-, not⟩ | ⟨zero, -⟩ | ⟨zero, -⟩ |
    ⟨other, -⟩
  · exact Bool.false_ne_true (not.symm.trans finite)
  · rw [zero] at top
    cases top
  · rw [zero] at top
    cases top
  · exact other (BitVec.eq_of_toNat_eq top)

theorem ofFloat_finite {x : Float} (finite : x.isFinite = true) :
    ∃ v, Decimal.Parts.ofFloat x = .finite v ∧ v.mantissa < 2 ^ 53 ∧
      (v.up < 971 ∨ v.up = 971 ∧ v.down = 0) := by
  have other := exponent_ne finite
  have most : (x.toBits.toNat >>> 52) % 2048 < 2048 := Nat.mod_lt _ (by decide)
  have fraction : x.toBits.toNat % (1 <<< 52) < 2 ^ 52 := Nat.mod_lt _ (by decide)
  rw [Decimal.Parts.ofFloat]
  simp only [if_neg other]
  generalize (x.toBits.toNat >>> 52) % 2048 = exponent at *
  generalize x.toBits.toNat % (1 <<< 52) = mantissa at *
  split
  · refine ⟨_, rfl, ?_, .inl ?_⟩
    · change mantissa < 2 ^ 53
      omega
    · change 0 < 971
      decide
  · refine ⟨_, rfl, ?_, ?_⟩
    · change mantissa + 2 ^ 52 < 2 ^ 53
      omega
    · change exponent - 1075 < 971 ∨ exponent - 1075 = 971 ∧ 1075 - exponent = 0
      omega

theorem shortest_le_limit {v : Decimal.Dyadic} (mantissa : v.mantissa < 2 ^ 53)
    (up : v.up < 971 ∨ v.up = 971 ∧ v.mantissa + 2 < 2 ^ 53) : v.shortest.value ≤ limit := by
  have above : v.shortest.value ≤ (v.mantissa + 1 / 2) * 2 ^ v.up := by
    have nonneg : 0 ≤ v.shortest.value := by
      rw [Decimal.Scientific.value]
      positivity
    have one : (1 : ℚ) ≤ 2 ^ v.down := one_le_pow₀ one_le_two
    exact (le_mul_of_one_le_right nonneg one).trans v.value_shortest_le
  have unit : (0 : ℚ) ≤ 2 ^ (971 : Int) := zpow_nonneg zero_le_two 971
  rcases up with low | ⟨top, less⟩
  · have half : (v.mantissa : ℚ) + 1 / 2 ≤ 2 ^ (53 : Int) := by
      have cast : (v.mantissa : ℚ) + 1 ≤ 2 ^ (53 : Int) := by exact_mod_cast mantissa
      linarith
    have power : (2 : ℚ) ^ v.up ≤ 2 ^ (970 : Int) := by
      rw [← zpow_natCast]
      exact zpow_le_zpow_right₀ one_le_two (by omega)
    calc
      v.shortest.value ≤ (v.mantissa + 1 / 2) * 2 ^ v.up := above
      _ ≤ 2 ^ (53 : Int) * 2 ^ (970 : Int) :=
        mul_le_mul half power (by positivity) (by positivity)
      _ = 2 ^ (971 : Int) * 2 ^ (52 : Int) := by
        rw [← zpow_add₀ two_ne_zero, ← zpow_add₀ two_ne_zero]
        norm_num
      _ ≤ limit := mul_le_mul_of_nonneg_left (by norm_num) unit
  · have half : (v.mantissa : ℚ) + 1 / 2 ≤ 2 ^ (53 : Int) - 5 / 2 := by
      have cast : (v.mantissa : ℚ) + 2 + 1 ≤ 2 ^ (53 : Int) := by exact_mod_cast less
      linarith
    calc
      v.shortest.value ≤ (v.mantissa + 1 / 2) * 2 ^ v.up := above
      _ ≤ (2 ^ (53 : Int) - 5 / 2) * 2 ^ v.up := mul_le_mul_of_nonneg_right half (by positivity)
      _ = limit := by
        rw [top, limit, mul_comm]
        rfl

/-- The two greatest doubles can be read too, though half a unit above them is beyond the limit. -/
theorem readable_greatest (negative : Bool) (below : Fin 2) :
    (Shape.ofDecimal negative
      (Decimal.Dyadic.shortest ⟨negative, 2 ^ 53 - 1 - below, 971, 0⟩)).Readable := by
  have read : ∀ negative, ∀ below : Fin 2, (Shape.ofDecimal negative
      (Decimal.Dyadic.shortest ⟨negative, 2 ^ 53 - 1 - below, 971, 0⟩)).value.isSome = true := by
    decide +kernel
  exact Option.isSome_iff_exists.mp (read negative below)

theorem rereadFloat_finite {x : Float} (finite : x.isFinite = true) :
    ∃ n, rereadFloat x = .num n := by
  obtain ⟨v, parts, mantissa, up⟩ := ofFloat_finite finite
  have readable : (Shape.ofDecimal v.negative v.shortest).Readable := by
    by_cases greatest : v.up = 971 ∧ 2 ^ 53 ≤ v.mantissa + 2
    · obtain ⟨negative, m, k, down⟩ := v
      obtain ⟨rfl, great⟩ := greatest
      obtain ⟨-, rfl⟩ := up.resolve_left (Nat.lt_irrefl 971)
      have same : m = 2 ^ 53 - 1 - (2 ^ 53 - 1 - m) := by
        simp only at great mantissa
        omega
      have small : 2 ^ 53 - 1 - m < 2 := by
        simp only at great mantissa
        omega
      rw [same]
      exact readable_greatest negative ⟨_, small⟩
    · exact readable_ofDecimal v.negative (shortest_le_limit mantissa (by omega))
  obtain ⟨n, value⟩ := readable
  refine ⟨n, ?_⟩
  simp only [rereadFloat, Shape.ofFloat?, parts, value]

end Doubles

end Json.Numeral

end DataReach
