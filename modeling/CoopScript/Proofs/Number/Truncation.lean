import Mathlib
import CoopScript.Machine.Step
import CoopScript.Number.Binary64

/-!
Numbers without their fractional part, and the ticks that a thread waits for when it asks for a
number of them. Both are told by the significand and the exponent that the bits of a number say.
-/

namespace CoopScript

open Float.Model Float.Model.UnpackedFloat

namespace Binary64

/-- A number without its fractional part, as a natural number of at most `2 ^ 32 - 1`. -/
def Decoded.truncated : Decoded → Nat
  | .nan => 0
  | .infinite negative => if negative then 0 else 2 ^ 32 - 1
  | .finite negative significand exponent =>
    if negative then 0 else min ⌊(significand : ℚ) * 2 ^ exponent⌋₊ (2 ^ 32 - 1)

def isNegative : Sign → Bool
  | .negative => true
  | .positive => false

/-- What the bits of a number in its unpacked form say. -/
def unpacked : UnpackedFloat → Decoded
  | .notANumber => .nan
  | .infinity sign => .infinite (isNegative sign)
  | .zero sign => .finite (isNegative sign) 0 (-1074)
  | .finite sign significand exponent _ => .finite (isNegative sign) significand exponent

/-! Shifting a significand. -/

theorem mantissa_shiftRight (extended : ExtendedMantissa) (count : Nat) :
    (extended >>> count).mantissa = extended.mantissa / 2 ^ count := by
  induction count with
  | zero => exact (Nat.div_one _).symm
  | succ count hypothesis =>
      rw [pow_succ, ← Nat.div_div_eq_div_mul, ← hypothesis]
      rfl

theorem floor_significand (significand : Nat) (exponent : Int) :
    ⌊(significand : ℚ) * 2 ^ exponent⌋₊ =
      significand * 2 ^ exponent.toNat / 2 ^ (-exponent).toNat := by
  obtain ⟨count, rfl | rfl⟩ := exponent.eq_nat_or_neg
  · have whole : (significand : ℚ) * 2 ^ (count : ℤ) = ((significand * 2 ^ count : ℕ) : ℚ) := by
      push_cast
      rfl
    rw [whole, Nat.floor_natCast]
    simp
  · have quotient : (significand : ℚ) * 2 ^ (-(count : ℤ)) =
        (significand : ℚ) / ((2 ^ count : ℕ) : ℚ) := by
      push_cast
      rw [zpow_neg, zpow_natCast, div_eq_mul_inv]
    rw [quotient, Nat.floor_div_natCast, Nat.floor_natCast]
    simp

theorem roundToInt_eq (sign : Sign) (significand : Nat) (exponent : Int) :
    roundToInt sign significand exponent =
      sign.apply ⌊(significand : ℚ) * 2 ^ exponent⌋₊ := by
  rw [floor_significand]
  unfold roundToInt decreaseExponent shiftToExponent
  have shift : (0 - (exponent - (exponent.toNat : Int))).toNat = (-exponent).toNat := by omega
  simp only [mantissa_shiftRight, Nat.shiftLeft_eq, ExtendedMantissa.ofMantissaAndAccuracy, sub_zero,
    shift]

theorem toNat_ofNatClamp (value : Nat) :
    (UInt32.ofNatClamp value).toNat = min value (2 ^ 32 - 1) := by
  have size : UInt32.size = 2 ^ 32 := rfl
  unfold UInt32.ofNatClamp
  split <;> rw [UInt32.toNat_ofNatLT] <;> omega

theorem toUInt32_unpacked (number : UnpackedFloat) :
    number.toUInt32.toNat = (unpacked number).truncated := by
  rw [UnpackedFloat.toUInt32, toNat_ofNatClamp]
  cases number with
  | notANumber => rfl
  | infinity sign => cases sign <;> rfl
  | zero sign => cases sign <;> simp [toInt, unpacked, Decoded.truncated]
  | finite sign significand exponent positive =>
      simp only [toInt, roundToInt_eq, unpacked, Decoded.truncated]
      cases sign with
      | negative => simp [Sign.apply, isNegative]
      | positive => simp [Sign.apply, isNegative]

/-! The fields of the bits. -/

theorem toNat_unpackMantissa (bits : BitVec 64) :
    (@unpackMantissa .binary64 bits).toNat = bits.toNat % 2 ^ 52 := by
  simp [unpackMantissa_def]

theorem toNat_unpackExponent (bits : BitVec 64) :
    (@unpackExponent .binary64 bits).toNat = bits.toNat / 2 ^ 52 % 2 ^ 11 := by
  simp [unpackExponent_def, Nat.shiftRight_eq_div_pow]

theorem isNegative_unpackSign (bits : BitVec 64) :
    isNegative (Sign.ofBitVec (@unpackSign .binary64 bits)) = bits.toNat.testBit 63 := by
  have sign : @unpackSign .binary64 bits = BitVec.ofBool (bits.toNat.testBit 63) := by
    rw [unpackSign_def]
    apply BitVec.eq_of_getLsbD_eq
    intro index inside
    obtain rfl : index = 0 := by omega
    cases last : bits.toNat.testBit 63 <;> simp [BitVec.getLsbD, last]
  rw [sign]
  cases bits.toNat.testBit 63 <;> rfl

theorem decodeBits_eq (bits : BitVec 64) :
    decodeBits bits.toNat = unpacked (UnpackedFloat.unpack .binary64 bits) := by
  have mantissa := toNat_unpackMantissa bits
  have exponent := toNat_unpackExponent bits
  have sign := isNegative_unpackSign bits
  have leading : (1#1 ++ @unpackMantissa .binary64 bits).toNat =
      2 ^ 52 + bits.toNat % 2 ^ 52 := by
    have small : bits.toNat % 2 ^ 52 < 2 ^ 52 := Nat.mod_lt _ (Nat.two_pow_pos 52)
    rw [BitVec.toNat_append, mantissa]
    exact (Nat.shiftLeft_add_eq_or_of_lt small 1).symm
  have bias : Format.binary64.exponentBias = 1023 := rfl
  have last : (-1#11).toNat = 2047 := rfl
  unfold decodeBits UnpackedFloat.unpack
  simp only [BitVec.toNat_eq, bias, last, BitVec.toNat_zero, mantissa, exponent, leading, Nat.pow_eq]
  split
  · split
    · exact congrArg Decoded.infinite sign.symm
    · rfl
  · split
    · next subnormal =>
        -- Zeros are unpacked apart from the other numbers without a leading one.
        split
        · next zero => rw [zero, unpacked, sign]
        · rw [subnormal, unpacked, sign]
          rfl
    · rw [unpacked, sign]
      rfl

theorem toNat_toUInt32 (number : Float) : number.toUInt32.toNat = (decode number).truncated := by
  rw [decode, Float.toBits, ← UInt64.toNat_toBitVec, decodeBits_eq]
  exact toUInt32_unpacked _

end Binary64

/-- A thread waits for at least one tick. -/
theorem Action.ticks_eq (number : Float) :
    Action.ticks number = max 1 (Binary64.decode number).truncated := by
  rw [Action.ticks, Binary64.toNat_toUInt32]

example : Action.ticks 2.75 = 2 := by decide +kernel

end CoopScript
