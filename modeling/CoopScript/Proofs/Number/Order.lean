import CoopScript.Number.Binary64
import Mathlib.Data.Prod.Lex
import Mathlib.Order.Compare

/-!
The order of numbers. Each number has a rank among all numbers, and comparing two of them compares
their ranks; what is no number has none. Differences are sums with the number turned over.
-/

namespace CoopScript.Binary64

open Float.Model Float.Model.UnpackedFloat

/-- The class of a number, from negative infinity to infinity, and within a class its exponent and its
significand, turned over for negative numbers. -/
abbrev Rank : Type := ℤ ×ₗ ℤ ×ₗ ℤ

def Rank.make (kind exponent significand : ℤ) : Rank := toLex (kind, toLex (exponent, significand))

def unpackedRank? : UnpackedFloat → Option Rank
  | .notANumber => none
  | .infinity .negative => some (.make (-2) 0 0)
  | .finite .negative significand exponent _ => some (.make (-1) (-exponent) (-significand))
  | .zero _ => some (.make 0 0 0)
  | .finite .positive significand exponent _ => some (.make 1 exponent significand)
  | .infinity .positive => some (.make 2 0 0)

def rank? (number : Float) : Option Rank := unpackedRank? number.toModel.unpack

theorem Rank.compare_make (kind exponent significand kind' exponent' significand' : ℤ) :
    compare (make kind exponent significand) (make kind' exponent' significand') =
      (compare kind kind').then
        ((compare exponent exponent').then (compare significand significand')) := rfl

theorem compare_natCast (left right : Nat) : compare (left : ℤ) right = compare left right := by
  rw [compare_iff]
  cases order : compare left right with
  | lt => exact Int.ofNat_lt.mpr (compare_lt_iff_lt.mp order)
  | eq => exact congrArg Int.ofNat (compare_eq_iff_eq.mp order)
  | gt => exact Int.ofNat_lt.mpr (compare_gt_iff_gt.mp order)

theorem compare_neg (left right : ℤ) : compare (-left) (-right) = (compare left right).swap := by
  rw [compare_iff]
  cases order : compare left right with
  | lt => exact Int.neg_lt_neg (compare_lt_iff_lt.mp order)
  | eq => exact congrArg Neg.neg (compare_eq_iff_eq.mp order)
  | gt => exact Int.neg_lt_neg (compare_gt_iff_gt.mp order)

theorem compare_unpacked (left right : UnpackedFloat) :
    left.compare right =
      (unpackedRank? left).bind fun first => (unpackedRank? right).map (compare first) := by
  cases left with
  | notANumber => cases right <;> rfl
  | infinity sign =>
      cases sign <;> rcases right with (_ | _) | _ | _ | ⟨_ | _, _, _, _⟩ <;> rfl
  | zero sign => rcases right with (_ | _) | _ | _ | ⟨_ | _, _, _, _⟩ <;> rfl
  | finite sign significand exponent positive =>
      cases right with
      | notANumber => cases sign <;> rfl
      | infinity other => cases sign <;> cases other <;> rfl
      | zero other => cases sign <;> rfl
      | finite other significand' exponent' positive' =>
          cases sign <;> cases other
          case positive.positive =>
            have order : compare (Rank.make 1 exponent significand)
                (Rank.make 1 exponent' significand') =
                  (compare exponent exponent').then (compare significand significand') := by
              rw [Rank.compare_make, compare_natCast]
              rfl
            exact congrArg some order.symm
          case negative.negative =>
            have order : compare (Rank.make (-1) (-exponent) (-significand))
                (Rank.make (-1) (-exponent') (-significand')) =
                  ((compare exponent exponent').then (compare significand significand')).swap := by
              rw [Rank.compare_make, compare_neg exponent, compare_neg significand, compare_natCast,
                Ordering.swap_then]
              rfl
            exact congrArg some order.symm
          all_goals rfl

variable {left right : Float} {first second : Rank}

theorem lt_iff_compare :
    left < right ↔ left.toModel.unpack.compare right.toModel.unpack = some .lt := by
  show decide (left.toModel < right.toModel) = true ↔ _
  rw [decide_eq_true_iff]
  exact beq_iff_eq

theorem beq_iff_compare :
    (left == right) = true ↔ left.toModel.unpack.compare right.toModel.unpack = some .eq := by
  show (left.toModel.unpack.compare right.toModel.unpack == some .eq) = true ↔ _
  exact beq_iff_eq

/-- A number is less than another if it has the lower rank. -/
theorem lt_iff : left < right ↔
    ∃ first second, rank? left = some first ∧ rank? right = some second ∧ first < second := by
  rw [lt_iff_compare, compare_unpacked, Option.bind_eq_some_iff]
  simp only [Option.map_eq_some_iff, compare_lt_iff_lt]
  constructor
  · rintro ⟨first, one, second, two, less⟩
    exact ⟨first, second, one, two, less⟩
  · rintro ⟨first, second, one, two, less⟩
    exact ⟨first, one, second, two, less⟩

/-- Numbers are equal if they have one rank, as both zeros do. -/
theorem beq_iff : (left == right) = true ↔
    ∃ rank, rank? left = some rank ∧ rank? right = some rank := by
  rw [beq_iff_compare, compare_unpacked, Option.bind_eq_some_iff]
  simp only [Option.map_eq_some_iff, compare_eq_iff_eq]
  constructor
  · rintro ⟨rank, one, _, two, rfl⟩
    exact ⟨rank, one, two⟩
  · rintro ⟨rank, one, two⟩
    exact ⟨rank, one, rank, two, rfl⟩

theorem exists_rank (number : left.isNaN = false) : ∃ rank, rank? left = some rank := by
  have unpacked : left.toModel.unpack.isNaN = false := number
  unfold rank?
  cases form : left.toModel.unpack with
  | notANumber =>
      rw [form] at unpacked
      cases unpacked
  | infinity sign => cases sign <;> exact ⟨_, rfl⟩
  | zero sign => exact ⟨_, rfl⟩
  | finite sign significand exponent positive => cases sign <;> exact ⟨_, rfl⟩

/-- What is no number counts as equal to every number. -/
theorem order_of_rank?_eq_none (missing : rank? left = none ∨ rank? right = none) :
    order left right = .eq := by
  have apart : ¬ left < right ∧ ¬ right < left := by
    simp only [lt_iff]
    rcases missing with missing | missing <;> simp [missing]
  rw [order, if_neg apart.1, if_neg apart.2]

theorem order_eq_compare (one : rank? left = some first) (two : rank? right = some second) :
    order left right = compare first second := by
  have less : left < right ↔ first < second := by
    simp [lt_iff, one, two]
  have more : right < left ↔ second < first := by
    simp [lt_iff, one, two]
  simp only [order, less, more]
  split
  · next below => exact (compare_lt_iff_lt.mpr below).symm
  · split
    · next above => exact (compare_gt_iff_gt.mpr above).symm
    · next below above =>
        exact (compare_eq_iff_eq.mpr (le_antisymm (not_lt.mp above) (not_lt.mp below))).symm

theorem order_swap (left right : Float) : order right left = (order left right).swap := by
  cases one : rank? left with
  | none => rw [order_of_rank?_eq_none (.inl one), order_of_rank?_eq_none (.inr one)]; rfl
  | some first =>
      cases two : rank? right with
      | none => rw [order_of_rank?_eq_none (.inl two), order_of_rank?_eq_none (.inr two)]; rfl
      | some second =>
          rw [order_eq_compare one two, order_eq_compare two one]
          exact Std.OrientedCmp.eq_swap

/-! Differences. -/

theorem apply_neg (sign : Sign) (number : ℤ) : (-sign).apply number = -sign.apply number := by
  cases sign with
  | negative => exact (Int.neg_neg number).symm
  | positive => rfl

theorem sub_eq_add_neg (spec : Format) (left right : UnpackedFloat) :
    left.sub spec right = left.add spec right.neg := by
  cases left <;> cases right <;> try rfl
  case finite.finite sign significand exponent positive other fraction scale full =>
    have turned : sign.apply (decreaseExponent significand exponent (min exponent scale)).1 -
          other.apply (decreaseExponent fraction scale (min exponent scale)).1 =
        sign.apply (decreaseExponent significand exponent (min exponent scale)).1 +
          (-other).apply (decreaseExponent fraction scale (min exponent scale)).1 := by
      rw [apply_neg, Int.sub_eq_add_neg]
    exact congrArg (fun mantissa => normalize spec mantissa (min exponent scale) .positive) turned

theorem unpack_neg_one : (-1.0 : Float).toModel.unpack = (1.0 : Float).toModel.unpack.neg := by
  rfl

theorem add_neg_one (number : Float) : number + -1.0 = number - 1.0 := by
  refine congrArg Float.ofModel ?_
  show pack (UnpackedFloat.add _ _ _) = pack (UnpackedFloat.sub _ _ _)
  rw [sub_eq_add_neg, unpack_neg_one]

end CoopScript.Binary64
