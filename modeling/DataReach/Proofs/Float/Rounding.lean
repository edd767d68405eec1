import DataReach.Proofs.Float.Packing
/-!
How far rounding to a double goes up. A result exceeds the exact value by half a unit of its last
place at most, so a product stays finite while the exact one is below what rounds to infinity.
-/

namespace DataReach.Binary64

open Float.Model (Format UnpackedFloat totalExponent)
open Float.Model.UnpackedFloat hiding compare

def size : UnpackedFloat → ℚ
  | .finite _ m e _ => m * 2 ^ e
  | _ => 0

theorem size_nonneg (f : UnpackedFloat) : 0 ≤ size f := by
  cases f with
  | finite s m e pos =>
    rw [size]
    positivity
  | _ => exact le_refl _

section Rounding

variable {m k : Nat} {e : Int} {s : Sign}

/-- The mantissa is what is left of `m` without its last `k` bits, and the bit behind it says that
half a unit more does not exceed `m`. -/
structure Below (em : ExtendedMantissa) (m k : Nat) : Prop where
  whole : em.mantissa * 2 ^ k ≤ m
  half : em.roundBit = true → (2 * em.mantissa + 1) * 2 ^ k ≤ 2 * m

theorem below_shiftRightOne {em : ExtendedMantissa} (below : Below em m k) :
    Below em.shiftRightOne m (k + 1) where
  whole := by
    have two : em.mantissa / 2 * 2 ≤ em.mantissa := Nat.div_mul_le_self _ 2
    calc
      em.mantissa / 2 * 2 ^ (k + 1) = em.mantissa / 2 * 2 * 2 ^ k := by ring
      _ ≤ em.mantissa * 2 ^ k := Nat.mul_le_mul_right _ two
      _ ≤ m := below.whole
  half := by
    intro odd
    have rest : 2 * (em.mantissa / 2) + 1 = em.mantissa := by
      have bit : em.mantissa % 2 ≠ 0 := by simpa [ExtendedMantissa.shiftRightOne] using odd
      omega
    have whole := below.whole
    calc
      (2 * (em.mantissa / 2) + 1) * 2 ^ (k + 1) = 2 * (em.mantissa * 2 ^ k) := by
        rw [rest]
        ring
      _ ≤ 2 * m := by omega

theorem below_shift (m k : Nat) :
    Below (ExtendedMantissa.ofMantissaAndAccuracy m .exact >>> k) m k := by
  change Below (k.repeat ExtendedMantissa.shiftRightOne _) m k
  induction k with
  | zero =>
    refine ⟨?_, nofun⟩
    rw [Nat.pow_zero, Nat.mul_one]
    exact Nat.le_refl m
  | succ k ih => exact below_shiftRightOne ih

theorem rounded_le {em : ExtendedMantissa} (below : Below em m k) :
    2 * (em.roundedMantissa * 2 ^ k) ≤ 2 * m + 2 ^ k := by
  have whole := below.whole
  have half := below.half
  obtain ⟨n, roundBit, stickyBit⟩ := em
  have up : ∀ r, roundBit = true → r ≤ n + 1 → 2 * (r * 2 ^ k) ≤ 2 * m + 2 ^ k := by
    intro r set bound
    have more := half set
    have step : r * 2 ^ k ≤ (n + 1) * 2 ^ k := Nat.mul_le_mul_right _ bound
    simp only [Nat.add_mul, Nat.one_mul, Nat.mul_assoc] at more step
    omega
  cases roundBit with
  | false => cases stickyBit <;> exact Nat.le_add_right_of_le (Nat.mul_le_mul_left 2 whole)
  | true =>
    cases stickyBit with
    | false => exact up (n + n % 2) rfl (by omega)
    | true => exact up (n + 1) rfl (Nat.le_refl _)

def shift (m : Nat) (e : Int) : Nat :=
  (Format.binary64.targetExponent (totalExponent m e) - e).toNat

theorem shift_eq (m : Nat) (e : Int) : shift m e = (max (m.log2 + e - 52) (-1074) - e).toNat := by
  rw [shift, Format.targetExponent, totalExponent]
  change (max ((m.log2 : Int) + 1 + e - (53 : Nat)) (-1074) - e).toNat = _
  congr 3
  omega

/-- A number is rounded where its last bits belong, and once more if that gives it a bit too many. -/
theorem round_cases (s : Sign) (m : Nat) (e : Int) :
    ∃ r, 2 * (r * 2 ^ shift m e) ≤ 2 * m + 2 ^ shift m e ∧
      (roundWithAccuracy .binary64 s m e .exact = .zero s ∨
        ∃ n pos, n * 2 ^ shift r (e + shift m e) ≤ r ∧
          roundWithAccuracy .binary64 s m e .exact =
            .finite s n (e + shift m e + shift r (e + shift m e)) pos) := by
  refine ⟨_, rounded_le (below_shift m (shift m e)), ?_⟩
  generalize made : (ExtendedMantissa.ofMantissaAndAccuracy m .exact >>>
    shift m e).roundedMantissa = r
  have again := (below_shift r (shift r (e + shift m e))).whole
  generalize last : (ExtendedMantissa.ofMantissaAndAccuracy r .exact >>>
    shift r (e + shift m e)).mantissa = n at again
  have result : roundWithAccuracy .binary64 s m e .exact =
      if h : n = 0 then .zero s
      else .finite s n (e + shift m e + shift r (e + shift m e)) (Nat.pos_of_ne_zero h) := by
    subst made last
    rfl
  rw [result]
  by_cases none : n = 0
  · exact .inl (dif_pos none)
  · exact .inr ⟨n, Nat.pos_of_ne_zero none, again, dif_neg none⟩

theorem log2_le (pos : 0 < m) : (2 : ℚ) ^ ((m.log2 : Int) + e) ≤ m * 2 ^ e := by
  have whole : (2 : ℚ) ^ m.log2 ≤ m := by
    exact_mod_cast Nat.log2_self_le (Nat.ne_of_gt pos)
  rw [zpow_add₀ two_ne_zero, zpow_natCast]
  gcongr

theorem rounded_size {r : Nat} (bound : 2 * (r * 2 ^ shift m e) ≤ 2 * m + 2 ^ shift m e) :
    (r : ℚ) * 2 ^ (e + shift m e) ≤ m * 2 ^ e + 2 ^ (max ((m.log2 : Int) + e - 52) (-1074) - 1) := by
  by_cases none : shift m e = 0
  · have le : r ≤ m := by
      rw [none] at bound
      omega
    have cast : (r : ℚ) ≤ m := by exact_mod_cast le
    have scaled : (r : ℚ) * 2 ^ e ≤ m * 2 ^ e := by gcongr
    have half : (0 : ℚ) < 2 ^ (max ((m.log2 : Int) + e - 52) (-1074) - 1) := by positivity
    rw [none, Nat.cast_zero, add_zero]
    linarith
  · have place : e + shift m e = max ((m.log2 : Int) + e - 52) (-1074) := by
      rw [shift_eq] at none ⊢
      omega
    have cast : 2 * ((r : ℚ) * 2 ^ shift m e) ≤ 2 * m + 2 ^ shift m e := by exact_mod_cast bound
    have unit : (0 : ℚ) < 2 ^ e := by positivity
    calc
      (r : ℚ) * 2 ^ (e + shift m e) = r * 2 ^ shift m e * 2 ^ e := by
        rw [zpow_add₀ two_ne_zero, zpow_natCast]
        ring
      _ ≤ (m + 2 ^ shift m e / 2) * 2 ^ e := by
        gcongr
        linarith
      _ = m * 2 ^ e + 2 ^ (e + shift m e) / 2 := by
        rw [zpow_add₀ two_ne_zero, zpow_natCast]
        ring
      _ = m * 2 ^ e + 2 ^ (max ((m.log2 : Int) + e - 52) (-1074) - 1) := by
        rw [place, zpow_sub_one₀ two_ne_zero, div_eq_mul_inv]

def topExponent : Int := 971

def ceiling : ℚ := 2 ^ (1024 : Int) - 2 ^ (970 : Int)

theorem ceiling_eq : ceiling = 2 ^ (971 : Int) * (2 ^ (53 : Int) - 1 / 2) := by
  rw [ceiling, mul_sub, ← zpow_add₀ two_ne_zero, one_div, ← zpow_sub_one₀ two_ne_zero]
  norm_num

theorem lt_ceiling {x : ℚ} (small : x < 2 ^ (64 : Int)) : x < ceiling := by
  have unit : (2 : ℚ) ^ (64 : Int) ≤ 2 ^ (971 : Int) := zpow_le_zpow_right₀ one_le_two (by omega)
  have many : (1 : ℚ) ≤ 2 ^ (53 : Int) - 1 / 2 := by norm_num
  calc
    x < 2 ^ (64 : Int) := small
    _ ≤ 2 ^ (971 : Int) := unit
    _ ≤ 2 ^ (971 : Int) * (2 ^ (53 : Int) - 1 / 2) :=
      le_mul_of_one_le_right (zpow_nonneg zero_le_two 971) many
    _ = ceiling := ceiling_eq.symm

theorem exponent_lt {n : Int} {x : ℚ} (le : (2 : ℚ) ^ n ≤ x) (below : x < 2 ^ (1024 : Int)) :
    n ≤ 1023 := by
  have less := (zpow_lt_zpow_iff_right₀ one_lt_two).mp (le.trans_lt below)
  omega

theorem round_fits (pos : 0 < m) (low : e ≤ topExponent) (below : (m : ℚ) * 2 ^ e < ceiling) :
    roundWithAccuracy .binary64 s m e .exact = .zero s ∨
      ∃ n d pos, roundWithAccuracy .binary64 s m e .exact = .finite s n d pos ∧
        -1074 ≤ d ∧ d ≤ topExponent := by
  obtain ⟨r, bound, zero | ⟨n, pos', -, result⟩⟩ := round_cases s m e
  · exact .inl zero
  refine .inr ⟨n, _, pos', result, ?_, ?_⟩
  · simp only [shift_eq]
    omega
  have exact : (m : ℚ) * 2 ^ e < 2 ^ (1024 : Int) :=
    below.trans_le (sub_le_self _ (zpow_nonneg zero_le_two 970))
  have leading : (m.log2 : Int) + e ≤ 1023 := exponent_lt (log2_le pos) exact
  have place : e + (shift m e : Int) ≤ 971 := by
    rw [topExponent] at low
    rw [shift_eq]
    omega
  have rounded : (r : ℚ) * 2 ^ (e + (shift m e : Int)) < 2 ^ (1024 : Int) := by
    have half : (2 : ℚ) ^ (max ((m.log2 : Int) + e - 52) (-1074) - 1) ≤ 2 ^ (970 : Int) :=
      zpow_le_zpow_right₀ one_le_two (by omega)
    calc
      (r : ℚ) * 2 ^ (e + (shift m e : Int)) ≤
          m * 2 ^ e + 2 ^ (max ((m.log2 : Int) + e - 52) (-1074) - 1) := rounded_size bound
      _ < ceiling + 2 ^ (970 : Int) := add_lt_add_of_lt_of_le below half
      _ = 2 ^ (1024 : Int) := sub_add_cancel _ _
  have last : (r.log2 : Int) + (e + shift m e) ≤ 1023 := by
    by_cases none : r = 0
    · rw [none, Nat.log2_zero]
      omega
    · exact exponent_lt (log2_le (Nat.pos_of_ne_zero none)) rounded
  rw [topExponent, shift_eq r]
  omega

theorem size_round_le (pos : 0 < m) (normal : -1022 ≤ (m.log2 : Int) + e) :
    size (roundWithAccuracy .binary64 s m e .exact) ≤ m * 2 ^ e * (1 + 2 ^ (-53 : Int)) := by
  have exact : (0 : ℚ) ≤ m * 2 ^ e * (1 + 2 ^ (-53 : Int)) := by positivity
  obtain ⟨r, bound, zero | ⟨n, pos', whole, result⟩⟩ := round_cases s m e
  · rw [zero]
    exact exact
  have cast : (n : ℚ) * 2 ^ shift r (e + shift m e) ≤ r := by exact_mod_cast whole
  have place : max ((m.log2 : Int) + e - 52) (-1074) - 1 = m.log2 + e + -53 := by omega
  have part : (2 : ℚ) ^ (max ((m.log2 : Int) + e - 52) (-1074) - 1) ≤
      m * 2 ^ e * 2 ^ (-53 : Int) := by
    rw [place, zpow_add₀ two_ne_zero]
    gcongr
    exact log2_le pos
  calc
    size (roundWithAccuracy .binary64 s m e .exact) =
        n * 2 ^ shift r (e + shift m e) * 2 ^ (e + (shift m e : Int)) := by
      rw [result, size, zpow_add₀ two_ne_zero _ (shift r _ : Int), zpow_natCast]
      ring
    _ ≤ r * 2 ^ (e + (shift m e : Int)) := by gcongr
    _ ≤ m * 2 ^ e + 2 ^ (max ((m.log2 : Int) + e - 52) (-1074) - 1) := rounded_size bound
    _ ≤ m * 2 ^ e * (1 + 2 ^ (-53 : Int)) := by linarith

end Rounding

section Packed

theorem pack_finite {s : Sign} {m : Nat} {e : Int} {pos : 0 < m} (low : -1074 ≤ e)
    (high : e ≤ topExponent) :
    pack .binary64 (.finite s m e pos) = packComponents .binary64 s
      (if m.log2 = 52 then .ofNat 11 (e + 1075).toNat else 0#_) (.ofNat 52 m) := by
  rw [topExponent] at high
  have biased : (e + (Format.binary64.exponentBias : Int) +
      (Format.binary64.mantissaBitsWithoutImplicit : Int)).toNat = (e + 1075).toNat := by
    change (e + (1023 : Nat) + (52 : Nat)).toNat = _
    omega
  have fits : ¬ 2 ^ Format.binary64.exponentBits ≤ (e + 1075).toNat + 1 := by
    change ¬ 2 ^ 11 ≤ _
    omega
  have implicit : m.log2 + 1 = Format.binary64.mantissaBits ↔ m.log2 = 52 :=
    Nat.add_right_cancel_iff
  simp only [pack, biased, if_neg fits, implicit]
  split <;> rfl

theorem unpack_pack {s : Sign} {m : Nat} {e : Int} {pos : 0 < m} (low : -1074 ≤ e)
    (high : e ≤ topExponent) :
    (unpack .binary64 (pack .binary64 (.finite s m e pos))).isInf = false ∧
      size (unpack .binary64 (pack .binary64 (.finite s m e pos))) ≤ m * 2 ^ e := by
  rw [pack_finite low high]
  rw [topExponent] at high
  by_cases normal : m.log2 = 52
  · have exponent : (BitVec.ofNat 11 (e + 1075).toNat).toNat = (e + 1075).toNat :=
      Nat.mod_eq_of_lt (by omega)
    have differs : ∀ x : BitVec 11, x.toNat ≠ (e + 1075).toNat →
        BitVec.ofNat 11 (e + 1075).toNat ≠ x := by
      intro x other same
      exact other ((congrArg BitVec.toNat same).symm.trans exponent)
    have mantissa : (1#1 ++ BitVec.ofNat 52 m).toNat = m := by
      have bounds := (Nat.log2_eq_iff (Nat.ne_of_gt pos)).mp normal
      rw [toNat_implicit, BitVec.toNat_ofNat]
      omega
    obtain ⟨t, pos', same⟩ := unpack_normal s (.ofNat 52 m)
      (differs (-1#_) (by change 2047 ≠ _; omega)) (differs 0#_ (by change 0 ≠ _; omega))
    rw [if_pos normal, same]
    refine ⟨rfl, le_of_eq ?_⟩
    have back : ((e + 1075).toNat : Int) - 1075 = e := by omega
    rw [size, exponent, mantissa, back]
  · rw [if_neg normal]
    rcases unpack_subnormal s (.ofNat 52 m) with ⟨t, zero⟩ | ⟨t, pos', same⟩
    · rw [zero]
      refine ⟨rfl, ?_⟩
      change (0 : ℚ) ≤ _
      positivity
    · rw [same]
      refine ⟨rfl, ?_⟩
      have less : ((BitVec.ofNat 52 m).toNat : ℚ) ≤ m := by
        exact_mod_cast Nat.mod_le m _
      rw [size]
      gcongr
      exact one_le_two

theorem unpack_pack_zero (s : Sign) : unpack .binary64 (pack .binary64 (.zero s)) = .zero s :=
  unpack_packedZero

theorem unpack_pack_round {s : Sign} {m : Nat} {e : Int} (pos : 0 < m) (low : e ≤ topExponent)
    (below : (m : ℚ) * 2 ^ e < ceiling) :
    (unpack .binary64 (pack .binary64 (roundWithAccuracy .binary64 s m e .exact))).isInf = false ∧
      size (unpack .binary64 (pack .binary64 (roundWithAccuracy .binary64 s m e .exact))) ≤
        size (roundWithAccuracy .binary64 s m e .exact) := by
  rcases @round_fits m e s pos low below with zero | ⟨n, d, pos', result, least, most⟩
  · rw [zero, unpack_pack_zero]
    exact ⟨rfl, le_refl _⟩
  · rw [result]
    exact unpack_pack least most

theorem decreased_size (m : Nat) (target : Int) :
    ((m <<< (0 - target).toNat : Nat) : ℚ) * 2 ^ (0 - ((0 - target).toNat : Int)) = m := by
  rw [Nat.shiftLeft_eq, Nat.cast_mul, Nat.cast_pow, Nat.cast_ofNat, mul_assoc, ← zpow_natCast,
    ← zpow_add₀ two_ne_zero, add_sub_cancel, zpow_zero, mul_one]

theorem toFloat_size {n : Nat} (small : n < UInt64.size) :
    n.toUInt64.toFloat.isInf = false ∧
      size n.toUInt64.toFloat.toModel.unpack ≤ n * (1 + 2 ^ (-53 : Int)) := by
  have same : n.toUInt64.toNat = n := Nat.mod_eq_of_lt small
  have model : n.toUInt64.toFloat.toModel.unpack =
      unpack .binary64 (pack .binary64 (UnpackedFloat.normalize .binary64 n 0 .positive)) := by
    change unpack .binary64 (pack .binary64
      (UnpackedFloat.normalize .binary64 (n.toUInt64.toNat : Int) 0 .positive)) = _
    rw [same]
  change n.toUInt64.toFloat.toModel.unpack.isInf = false ∧ _
  rw [model]
  by_cases zero : n = 0
  · subst zero
    have packed := unpack_pack_zero .positive
    refine ⟨congrArg isInf packed, (congrArg size packed).le.trans ?_⟩
    change (0 : ℚ) ≤ _
    positivity
  · have pos : 0 < n := Nat.pos_of_ne_zero zero
    have above : compare (n : Int) 0 = .gt := by
      rw [compare_gt_iff_gt]
      exact_mod_cast pos
    let target := Format.binary64.targetExponent (totalExponent n 0)
    let k := (0 - target).toNat
    have rounded : UnpackedFloat.normalize .binary64 n 0 .positive =
        roundWithAccuracy .binary64 .positive (n <<< k) (0 - k) .exact := by
      simp only [UnpackedFloat.normalize, above]
      rfl
    have value : ((n <<< k : Nat) : ℚ) * 2 ^ (0 - (k : Int)) = n := decreased_size n target
    have pos' : 0 < n <<< k := by
      rw [Nat.shiftLeft_eq]
      positivity
    have leading : k ≤ (n <<< k).log2 := by
      rw [Nat.le_log2 (Nat.ne_of_gt pos'), Nat.shiftLeft_eq]
      exact Nat.le_mul_of_pos_left _ pos
    have below : ((n <<< k : Nat) : ℚ) * 2 ^ (0 - (k : Int)) < ceiling := by
      rw [value]
      exact lt_ceiling (by exact_mod_cast small)
    have packed := @unpack_pack_round .positive _ _ pos' (by rw [topExponent]; omega) below
    have grown := @size_round_le (n <<< k) (0 - k) .positive pos' (by omega)
    rw [value] at grown
    rw [rounded]
    exact ⟨packed.1, packed.2.trans grown⟩

theorem exponent_cases {x : Float} {s : Sign} {m : Nat} {e : Int} {pos : 0 < m}
    (unpacked : x.toModel.unpack = .finite s m e pos) :
    e ≤ topExponent ∧ (2 ^ 52 ≤ m ∨ e = -1074) := by
  change unpack .binary64 x.toModel.toBits.toBitVec = _ at unpacked
  rw [topExponent]
  rcases unpack_cases x.toModel.toBits.toBitVec with ⟨-, not⟩ | ⟨-, -, zero⟩ | ⟨-, pos', same⟩ |
    ⟨other, -, pos', same⟩
  · rw [unpacked] at not
    cases not
  · rw [unpacked] at zero
    cases zero
  · rw [unpacked] at same
    cases same
    exact ⟨by omega, .inr rfl⟩
  · have below := toNat_lt_of_ne other
    rw [unpacked] at same
    cases same
    refine ⟨by omega, .inl ?_⟩
    rw [toNat_implicit]
    exact Nat.le_add_right _ _

theorem isInf_mul {x y : Float} (left : x.isInf = false) (right : y.isInf = false)
    (below : size x.toModel.unpack * size y.toModel.unpack < ceiling) : (x * y).isInf = false := by
  have nan : (unpack .binary64 (pack .binary64 .notANumber)).isInf = false :=
    congrArg isInf unpack_packedNaN
  have leftParts := @exponent_cases x
  have rightParts := @exponent_cases y
  change x.toModel.unpack.isInf = false at left
  change y.toModel.unpack.isInf = false at right
  change (unpack .binary64 (pack .binary64
    (mul .binary64 x.toModel.unpack y.toModel.unpack))).isInf = false
  generalize x.toModel.unpack = f at left below leftParts
  generalize y.toModel.unpack = g at right below rightParts
  cases f with
  | infinity s => cases left
  | notANumber => exact nan
  | zero s =>
    cases g with
    | infinity t => cases right
    | notANumber => exact nan
    | zero t => exact congrArg isInf (unpack_pack_zero _)
    | finite t n d pos => exact congrArg isInf (unpack_pack_zero _)
  | finite s m e pos =>
    cases g with
    | infinity t => cases right
    | notANumber => exact nan
    | zero t => exact congrArg isInf (unpack_pack_zero _)
    | finite t n d pos' =>
      have value : ((m * n : Nat) : ℚ) * 2 ^ (e + d) = m * 2 ^ e * (n * 2 ^ d) := by
        rw [Nat.cast_mul, zpow_add₀ two_ne_zero]
        ring
      have low : e + d ≤ topExponent := by
        have high := (leftParts rfl).1
        rw [topExponent] at high ⊢
        obtain ⟨-, wide | least⟩ := rightParts rfl
        · have wide' : (2 : ℚ) ^ (52 : Int) ≤ ((m * n : Nat) : ℚ) := by
            have prod : 2 ^ 52 ≤ m * n := Nat.le_trans wide (Nat.le_mul_of_pos_left n pos)
            exact_mod_cast prod
          have least : (2 : ℚ) ^ (52 + (e + d)) ≤ ((m * n : Nat) : ℚ) * 2 ^ (e + d) := by
            rw [zpow_add₀ two_ne_zero]
            gcongr
          have less := exponent_lt least ((value.trans_lt below).trans_le
            (sub_le_self _ (zpow_nonneg zero_le_two 970)))
          omega
        · omega
      exact (unpack_pack_round (Nat.mul_pos pos pos') low (value.trans_lt below)).1

end Packed

end DataReach.Binary64
