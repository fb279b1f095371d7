import CoopScript.Operator
import CoopScript.Proofs.Number.Order
import CoopScript.Proofs.Number.Truncation

/-!
Natural numbers below `2 ^ 53` among the numbers. They are kept exactly, one more and one less are the
next and the one before, and they name the positions that they are.
-/

namespace CoopScript

open Float.Model Float.Model.UnpackedFloat

namespace Binary64

/-- How far the significand of a natural number is shifted up, so that it has all its places. -/
def lift (number : Nat) : Nat := 52 - number.log2

theorem whole_pos {number : Nat} (positive : number ≠ 0) : 0 < number * 2 ^ lift number :=
  Nat.mul_pos (Nat.pos_of_ne_zero positive) (Nat.two_pow_pos _)

/-- A natural number in its unpacked form. -/
def whole (number : Nat) : UnpackedFloat :=
  if zero : number = 0 then .zero .positive
  else .finite .positive (number * 2 ^ lift number) (-lift number) (whole_pos zero)

variable {number : Nat}

theorem whole_of_ne_zero (positive : number ≠ 0) :
    whole number = .finite .positive (number * 2 ^ lift number) (-lift number) (whole_pos positive) :=
  dif_neg positive

theorem log2_le (small : number < 2 ^ 53) : number.log2 ≤ 52 := by
  by_cases zero : number = 0
  · simp [zero]
  · exact Nat.lt_succ_iff.mp ((Nat.log2_lt zero).mpr small)

theorem log2_lifted (positive : number ≠ 0) (shift : Nat) :
    (number * 2 ^ shift).log2 = number.log2 + shift := by
  induction shift with
  | zero => simp
  | succ shift hypothesis =>
      have shifted : number * 2 ^ shift ≠ 0 :=
        Nat.mul_ne_zero positive (Nat.two_pow_pos shift).ne'
      rw [pow_succ', mul_left_comm, Nat.log2_two_mul shifted, hypothesis, add_assoc]

/-! Rounding leaves natural numbers as they are. -/

theorem shiftRight_exact (mantissa shift : Nat) :
    ExtendedMantissa.ofMantissaAndAccuracy (mantissa * 2 ^ shift) .exact >>> shift =
      ExtendedMantissa.ofMantissaAndAccuracy mantissa .exact := by
  induction shift generalizing mantissa with
  | zero => simp; rfl
  | succ shift hypothesis =>
      have last := hypothesis (mantissa * 2)
      rw [mul_assoc, ← pow_succ'] at last
      show ExtendedMantissa.shiftRightOne
        (ExtendedMantissa.ofMantissaAndAccuracy (mantissa * 2 ^ (shift + 1)) .exact >>> shift) = _
      rw [last]
      simp [ExtendedMantissa.shiftRightOne, ExtendedMantissa.ofMantissaAndAccuracy]

theorem targetExponent_whole (positive : number ≠ 0) (shift : Nat) :
    Format.binary64.targetExponent (totalExponent (number * 2 ^ shift) (-shift)) =
      (number.log2 : ℤ) - 52 := by
  have least : Format.binary64.minExponent = -1074 := rfl
  have places : (Format.binary64.mantissaBits : ℤ) = 53 := rfl
  rw [Format.targetExponent, totalExponent, log2_lifted positive, least, places]
  omega

theorem roundWithAccuracy_whole (positive : number ≠ 0) (small : number < 2 ^ 53) {shift : Nat}
    (enough : lift number ≤ shift) :
    roundWithAccuracy .binary64 .positive (number * 2 ^ shift) (-shift) .exact = whole number := by
  have places := log2_le small
  have away : ((number.log2 : ℤ) - 52 - -shift).toNat = shift - lift number := by
    unfold lift at enough ⊢
    omega
  have split : number * 2 ^ shift = number * 2 ^ lift number * 2 ^ (shift - lift number) := by
    rw [mul_assoc, ← pow_add, Nat.add_sub_cancel' enough]
  have exponent : (-(shift : ℤ) + ((shift - lift number : ℕ) : ℤ)) = -lift number := by omega
  have first : shiftToTargetExponent .binary64 (number * 2 ^ shift) (-shift) .exact =
      (.ofMantissaAndAccuracy (number * 2 ^ lift number) .exact, -(lift number : ℤ)) := by
    rw [shiftToTargetExponent, targetExponent_whole positive, shiftToExponent, away, exponent]
    rw [split, shiftRight_exact]
  have still : ((number.log2 : ℤ) - 52 - -lift number).toNat = 0 := by
    unfold lift
    omega
  have second : shiftToTargetExponent .binary64 (number * 2 ^ lift number) (-lift number) .exact =
      (.ofMantissaAndAccuracy (number * 2 ^ lift number) .exact, -(lift number : ℤ)) := by
    rw [shiftToTargetExponent, targetExponent_whole positive, shiftToExponent, still]
    rw [Int.natCast_zero, add_zero]
    rfl
  have rounded : (ExtendedMantissa.ofMantissaAndAccuracy (number * 2 ^ lift number)
      .exact).roundedMantissa = number * 2 ^ lift number := rfl
  rw [roundWithAccuracy, whole_of_ne_zero positive]
  simp only [first, rounded, second]
  exact dif_neg (whole_pos positive).ne'

theorem round_whole (positive : number ≠ 0) (small : number < 2 ^ 53) (shift : Nat) :
    UnpackedFloat.round .binary64 .positive (number * 2 ^ shift) (-shift) = whole number := by
  have places := log2_le small
  have up : (-(shift : ℤ) - ((number.log2 : ℤ) - 52)).toNat = lift number - shift := by
    unfold lift
    omega
  have exponent : -(shift : ℤ) - ((lift number - shift : ℕ) : ℤ) =
      -((shift + (lift number - shift) : ℕ) : ℤ) := by omega
  rw [UnpackedFloat.round]
  simp only [targetExponent_whole positive, decreaseExponent, up, Nat.shiftLeft_eq, exponent]
  rw [mul_assoc, ← pow_add]
  exact roundWithAccuracy_whole positive small (by omega)

theorem normalize_whole (small : number < 2 ^ 53) (shift : Nat) :
    normalize .binary64 ((number * 2 ^ shift : ℕ) : ℤ) (-shift) .positive = whole number := by
  by_cases zero : number = 0
  · subst zero
    rw [Nat.zero_mul]
    rfl
  · have positive : 0 < number * 2 ^ shift :=
      Nat.mul_pos (Nat.pos_of_ne_zero zero) (Nat.two_pow_pos shift)
    have above : compare ((number * 2 ^ shift : ℕ) : ℤ) 0 = .gt :=
      compare_gt_iff_gt.mpr (Int.natCast_pos.mpr positive)
    unfold UnpackedFloat.normalize
    simp only [above, Int.toNat_natCast]
    exact round_whole zero small shift

/-! Packing loses nothing of them. -/

theorem ofBitVec_unpackSign (sign : Sign) (exponent : BitVec 11) (mantissa : BitVec 52) :
    Sign.ofBitVec (unpackSign (packComponents .binary64 sign exponent mantissa)) = sign := by
  simp only [unpackSign, packComponents, BitVec.extractLsb]
  rw [BitVec.extractLsb'_append_eq_of_le (by omega), BitVec.extractLsb'_append_eq_of_le (by omega)]
  cases sign <;> rfl

theorem unpack_pack_whole (small : number < 2 ^ 53) :
    UnpackedFloat.unpack .binary64 (UnpackedFloat.pack .binary64 (whole number)) = whole number := by
  by_cases zero : number = 0
  · subst zero
    rfl
  · have places := log2_le small
    have full : (number * 2 ^ lift number).log2 = 52 := by
      rw [log2_lifted zero]
      unfold lift
      omega
    have below : number * 2 ^ lift number < 2 ^ 53 := by
      rw [← Nat.log2_lt (whole_pos zero).ne', full]
      decide
    have above : 2 ^ 52 ≤ number * 2 ^ lift number := by
      rw [← Nat.le_log2 (whole_pos zero).ne', full]
    have bias : (-(lift number : ℤ) + Format.binary64.exponentBias +
        Format.binary64.mantissaBitsWithoutImplicit).toNat = 1075 - lift number := by
      have plain : (Format.binary64.exponentBias : ℤ) = 1023 := rfl
      have fraction : (Format.binary64.mantissaBitsWithoutImplicit : ℤ) = 52 := rfl
      rw [plain, fraction]
      omega
    have short : lift number ≤ 52 := Nat.sub_le ..
    have field : (BitVec.ofNat 11 (1075 - lift number)).toNat = 1075 - lift number := by
      rw [BitVec.toNat_ofNat, Nat.mod_eq_of_lt (by omega)]
    have leading : (1#1 ++ BitVec.ofNat 52 (number * 2 ^ lift number)).toNat =
        number * 2 ^ lift number := by
      rw [BitVec.toNat_append, ← Nat.shiftLeft_add_eq_or_of_lt (BitVec.isLt _), BitVec.toNat_ofNat,
        Nat.shiftLeft_eq]
      simp only [BitVec.toNat_ofNat]
      omega
    rw [whole_of_ne_zero zero, UnpackedFloat.pack]
    simp only [full, bias]
    rw [if_neg (by omega), if_pos (by rfl), UnpackedFloat.unpack]
    simp only [unpackMantissa_packComponents, unpackExponent_packComponents, ofBitVec_unpackSign]
    rw [if_neg, if_neg]
    · simp only [leading, field, UnpackedFloat.finite.injEq, true_and]
      have plain : (Format.binary64.exponentBias : ℤ) = 1023 := rfl
      rw [plain]
      omega
    · intro same
      have none : (BitVec.ofNat 11 (1075 - lift number)).toNat = 0 := congrArg BitVec.toNat same
      omega
    · intro same
      have all : (BitVec.ofNat 11 (1075 - lift number)).toNat = 2047 := congrArg BitVec.toNat same
      omega

/-! Their numbers. -/

theorem unpack_one : (1.0 : Float).toModel.unpack = whole 1 := by rfl

theorem mul_one_whole (small : number < 2 ^ 53) :
    (whole number).mul .binary64 (whole 1) = whole number := by
  by_cases zero : number = 0
  · subst zero
    rfl
  · have one : lift 1 = 52 := rfl
    have exponent : -(lift number : ℤ) + -(lift 1 : ℤ) = -((lift number + 52 : ℕ) : ℤ) := by
      rw [one]
      omega
    have significand : number * 2 ^ lift number * (1 * 2 ^ lift 1) =
        number * 2 ^ (lift number + 52) := by
      rw [one, one_mul, mul_assoc, pow_add]
    rw [whole_of_ne_zero zero, whole_of_ne_zero one_ne_zero]
    show roundWithAccuracy .binary64 .positive _ _ .exact = _
    rw [exponent, significand, ← whole_of_ne_zero zero]
    exact roundWithAccuracy_whole zero small (Nat.le_add_right _ _)

theorem ofNat_eq (small : number < 2 ^ 53) : Float.ofNat number = .ofModel (pack (whole number)) := by
  have wide : number.toUInt64.toNat = number := by
    rw [UInt64.toNat_ofNat', Nat.mod_eq_of_lt (by omega)]
  have exact : UnpackedFloat.ofUInt64 .binary64 number.toUInt64 = whole number := by
    have plain := normalize_whole small 0
    rw [pow_zero, mul_one] at plain
    show normalize .binary64 (number.toUInt64.toNat : ℤ) 0 .positive = _
    rw [wide]
    exact plain
  have quick : number < 2 ^ 53 ∧ 0 ≤ 22 := ⟨small, Nat.zero_le _⟩
  show Float.ofScientific number false 0 = _
  rw [Float.ofScientific, dif_pos quick]
  show Float.ofModel (pack (UnpackedFloat.mul .binary64
    (Float.Model.unpack (pack (UnpackedFloat.ofUInt64 .binary64 number.toUInt64)))
      (1.0 : Float).toModel.unpack)) = _
  have unpacked : Float.Model.unpack (pack (whole number)) = whole number := unpack_pack_whole small
  rw [exact, unpacked, unpack_one, mul_one_whole small]

theorem unpack_ofNat (small : number < 2 ^ 53) :
    (Float.ofNat number).toModel.unpack = whole number := by
  rw [ofNat_eq small]
  exact unpack_pack_whole small

/-- With the exponent of one, the significand of a natural number is a multiple of that of one. -/
theorem decreaseExponent_whole (number : Nat) :
    (decreaseExponent (number * 2 ^ lift number) (-lift number) (min (-lift number) (-lift 1))).1 =
      number * 2 ^ 52 := by
  have one : lift 1 = 52 := rfl
  have short : lift number ≤ 52 := Nat.sub_le ..
  have up : (-(lift number : ℤ) - min (-(lift number : ℤ)) (-(52 : ℕ))).toNat = 52 - lift number := by
    omega
  rw [decreaseExponent, one]
  simp only [up, Nat.shiftLeft_eq]
  rw [mul_assoc, ← pow_add, Nat.add_sub_cancel' short]

theorem min_lift (number : Nat) : min (-(lift number : ℤ)) (-lift 1) = -(52 : ℕ) := by
  have one : lift 1 = 52 := rfl
  have short : lift number ≤ 52 := Nat.sub_le ..
  omega

theorem decreaseExponent_one (number : Nat) :
    (decreaseExponent (1 * 2 ^ lift 1) (-lift 1) (min (-lift number) (-lift 1))).1 = 2 ^ 52 := by
  rw [min_lift]
  rfl

/-- One less than a natural number is the one before. -/
theorem ofNat_succ_sub_one (small : number + 1 < 2 ^ 53) :
    Float.ofNat (number + 1) - 1.0 = Float.ofNat number := by
  have less : (whole (number + 1)).sub .binary64 (whole 1) = whole number := by
    rw [whole_of_ne_zero number.succ_ne_zero, whole_of_ne_zero one_ne_zero]
    show normalize .binary64 (((decreaseExponent _ _ _).1 : ℤ) - ((decreaseExponent _ _ _).1 : ℤ))
      (min _ _) .positive = _
    rw [decreaseExponent_whole, decreaseExponent_one, min_lift]
    have difference : (((number + 1) * 2 ^ 52 : ℕ) : ℤ) - ((2 ^ 52 : ℕ) : ℤ) =
        ((number * 2 ^ 52 : ℕ) : ℤ) := by
      push_cast
      ring
    rw [difference]
    exact normalize_whole (by omega) 52
  show Float.ofModel (pack (UnpackedFloat.sub .binary64 _ _)) = _
  rw [unpack_ofNat small, unpack_one, less, ofNat_eq (by omega)]

/-- One more than a natural number is the next. -/
theorem ofNat_add_one (small : number + 1 < 2 ^ 53) :
    Float.ofNat number + 1.0 = Float.ofNat (number + 1) := by
  have more : (whole number).add .binary64 (whole 1) = whole (number + 1) := by
    by_cases zero : number = 0
    · subst zero
      rfl
    · rw [whole_of_ne_zero zero, whole_of_ne_zero one_ne_zero]
      show normalize .binary64 (((decreaseExponent _ _ _).1 : ℤ) + ((decreaseExponent _ _ _).1 : ℤ))
        (min _ _) .positive = _
      rw [decreaseExponent_whole, decreaseExponent_one, min_lift]
      have total : ((number * 2 ^ 52 : ℕ) : ℤ) + ((2 ^ 52 : ℕ) : ℤ) =
          (((number + 1) * 2 ^ 52 : ℕ) : ℤ) := by
        push_cast
        ring
      rw [total]
      exact normalize_whole small 52
  show Float.ofModel (pack (UnpackedFloat.add .binary64 _ _)) = _
  rw [unpack_ofNat (by omega), unpack_one, more, ofNat_eq small]

theorem unpack_zero : (0.0 : Float).toModel.unpack = .zero .positive := by rfl

theorem zero_lt_ofNat_iff (small : number < 2 ^ 53) : 0.0 < Float.ofNat number ↔ 0 < number := by
  rw [lt_iff_compare, unpack_ofNat small, unpack_zero]
  by_cases zero : number = 0
  · subst zero
    exact iff_of_false nofun (Nat.lt_irrefl 0)
  · rw [whole_of_ne_zero zero]
    exact iff_of_true rfl (Nat.pos_of_ne_zero zero)

theorem not_ofNat_lt_zero (small : number < 2 ^ 53) : ¬ Float.ofNat number < 0.0 := by
  rw [lt_iff_compare, unpack_ofNat small, unpack_zero]
  by_cases zero : number = 0
  · subst zero
    nofun
  · rw [whole_of_ne_zero zero]
    nofun

theorem decode_ofNat (small : number < 2 ^ 53) :
    decode (Float.ofNat number) = unpacked (whole number) := by
  rw [decode, Float.toBits, ← UInt64.toNat_toBitVec, decodeBits_eq]
  exact congrArg unpacked (unpack_ofNat small)

theorem isIntegral_ofNat (small : number < 2 ^ 53) : isIntegral (Float.ofNat number) = true := by
  rw [isIntegral, decode_ofNat small]
  by_cases zero : number = 0
  · subst zero
    exact beq_iff_eq.mpr (Nat.zero_mod _)
  · rw [whole_of_ne_zero zero]
    simp [unpacked]

theorem toNat_toUInt64_ofNat (small : number < 2 ^ 53) :
    (Float.ofNat number).toUInt64.toNat = number := by
  have truncated : (whole number).toInt 0 (UInt64.size - 1) = number := by
    by_cases zero : number = 0
    · subst zero
      rfl
    · rw [whole_of_ne_zero zero, toInt, roundToInt_eq]
      have exact : ((number * 2 ^ lift number : ℕ) : ℚ) * 2 ^ (-(lift number : ℤ)) = number := by
        rw [zpow_neg, zpow_natCast]
        push_cast
        field_simp
      rw [exact, Nat.floor_natCast]
      rfl
  show (UInt64.ofNatClamp ((Float.ofNat number).toModel.unpack.toInt 0 (UInt64.size - 1)).toNat).toNat =
    number
  rw [unpack_ofNat small, truncated, Int.toNat_natCast]
  have size : UInt64.size = 2 ^ 64 := rfl
  rw [UInt64.ofNatClamp, dif_pos (by omega), UInt64.toNat_ofNatLT]

end Binary64

/-- A natural number names the position that it is. -/
theorem Datum.position_ofNat {datum : Datum} {number : Nat} (small : number < 2 ^ 53)
    (shown : datum.toReal = .ok (Float.ofNat number)) : datum.position = .ok number := by
  have below := Binary64.not_ofNat_lt_zero small
  have whole := Binary64.isIntegral_ofNat small
  simp only [position, shown, MachineError.ofValueResult, bind, Except.bind, below, whole, decide_false,
    Bool.not_true, Bool.or_false, Bool.false_eq_true, if_false, Binary64.toNat_toUInt64_ofNat small]
  rfl

end CoopScript
