import Mathlib
/-!
The parts of a double. What a word unpacks to is said by its exponent: the highest one stands for
what is not finite, the lowest one for a mantissa without its implicit bit.
-/

namespace DataReach.Binary64

open Float.Model (Format UnpackedFloat)
open Float.Model.UnpackedFloat hiding compare

theorem toNat_implicit (m : BitVec 52) : (1#1 ++ m).toNat = 2 ^ 52 + m.toNat := by
  have apart : 2 ^ 52 * 1 + m.toNat = 2 ^ 52 * 1 ||| m.toNat :=
    Nat.two_pow_add_eq_or_of_lt m.isLt 1
  rw [BitVec.toNat_append, ← Nat.mul_one (2 ^ 52), apart]
  rfl

theorem toNat_lt_of_ne {e : BitVec 11} (other : e ≠ -1#_) : e.toNat + 1 < 2 ^ 11 := by
  have bound := e.isLt
  have differs : e.toNat ≠ 2 ^ 11 - 1 := fun same => other (BitVec.eq_of_toNat_eq same)
  omega

theorem unpack_cases (b : BitVec Format.binary64.numBits) :
    (unpackExponent b = -1#_ ∧ (unpack .binary64 b).isFinite = false) ∨
      (unpackExponent b = 0#_ ∧ unpackMantissa b = 0#_ ∧
        unpack .binary64 b = .zero (.ofBitVec (unpackSign b))) ∨
      (unpackExponent b = 0#_ ∧ ∃ pos, unpack .binary64 b =
        .finite (.ofBitVec (unpackSign b)) (unpackMantissa b).toNat (-1074) pos) ∨
      unpackExponent b ≠ -1#_ ∧ unpackExponent b ≠ 0#_ ∧ ∃ pos, unpack .binary64 b =
        .finite (.ofBitVec (unpackSign b)) (1#1 ++ unpackMantissa b).toNat
          (((unpackExponent b).toNat : Int) - 1075) pos := by
  by_cases top : unpackExponent b = -1#_
  · refine .inl ⟨top, ?_⟩
    by_cases none : unpackMantissa b = 0#_
    · simp [unpack, top, none, isFinite]
    · simp [unpack, top, none, isFinite]
  by_cases low : unpackExponent b = 0#_
  · by_cases none : unpackMantissa b = 0#_
    · exact .inr (.inl ⟨low, none, by simp [unpack, low, none]⟩)
    · refine .inr (.inr (.inl ⟨low, ?_, ?_⟩))
      · exact Nat.pos_of_ne_zero fun zero => none (BitVec.eq_of_toNat_eq zero)
      · simp only [unpack, low, if_true, dif_neg none]
        rfl
  · refine .inr (.inr (.inr ⟨top, low, ?_, ?_⟩))
    · rw [toNat_implicit]
      omega
    · simp only [unpack, if_neg top, if_neg low]
      rfl

theorem unpack_normal (s : Sign) {e : BitVec 11} (m : BitVec 52) (top : e ≠ -1#_)
    (low : e ≠ 0#_) :
    ∃ t pos, unpack .binary64 (packComponents .binary64 s e m) =
      .finite t (1#1 ++ m).toNat ((e.toNat : Int) - 1075) pos := by
  have kinds := unpack_cases (packComponents .binary64 s e m)
  simp only [unpackExponent_packComponents, unpackMantissa_packComponents] at kinds
  rcases kinds with ⟨not, -⟩ | ⟨not, -⟩ | ⟨not, -⟩ | ⟨-, -, pos, same⟩
  · exact absurd not top
  · exact absurd not low
  · exact absurd not low
  · exact ⟨_, pos, same⟩

theorem unpack_subnormal (s : Sign) (m : BitVec 52) :
    (∃ t, unpack .binary64 (packComponents .binary64 s 0#_ m) = .zero t) ∨
      ∃ t pos, unpack .binary64 (packComponents .binary64 s 0#_ m) =
        .finite t m.toNat (-1074) pos := by
  have kinds := unpack_cases (packComponents .binary64 s 0#_ m)
  simp only [unpackExponent_packComponents, unpackMantissa_packComponents] at kinds
  rcases kinds with ⟨not, -⟩ | ⟨-, -, zero⟩ | ⟨-, pos, same⟩ | ⟨-, not, -⟩
  · cases not
  · exact .inl ⟨_, zero⟩
  · exact .inr ⟨_, pos, same⟩
  · exact absurd rfl not

end DataReach.Binary64
