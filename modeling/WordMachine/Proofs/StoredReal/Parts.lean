import WordMachine.Proofs.Machine.IntegerArithmetic
import WordMachine.Proofs.Numeric.Exactness

/-!
# Integer part and fraction of a stored real

The integer part of a number is taken toward zero, so that the fraction that is left is smaller than one and has the
sign of the number. A stored real is 17 bits in units of a power of two (`exists_units`). Its fraction is at most 17
bits in the same units, and is nothing or no smaller than the least real (`exists_parts`), so it is a binary64 number
and is stored as it is (`exists_fraction`).
-/
namespace WordMachine

open Numeric

/-- The integer part, taken toward zero: what is left over is smaller than one, and is nothing or has the sign of the
number. -/
structure IsIntegerPart (v : ℚ) (n : Int) : Prop where
  remainder : |v - n| < 1
  sign : v - n = 0 ∨ SignType.sign (v - n) = SignType.sign v

section

variable {v : ℚ} {n k : Int}

theorem IsIntegerPart.nonneg (whole : IsIntegerPart v n) (above : 0 ≤ v) : 0 ≤ v - n := by
  rcases whole.sign with nothing | same
  · exact nothing.ge
  · exact sign_nonneg_iff.mp (same ▸ sign_nonneg_iff.mpr above)

theorem IsIntegerPart.nonpos (whole : IsIntegerPart v n) (below : v ≤ 0) : v - n ≤ 0 := by
  rcases whole.sign with nothing | same
  · exact nothing.le
  · exact sign_nonpos_iff.mp (same ▸ sign_nonpos_iff.mpr below)

/-- There is only one integer part. -/
theorem IsIntegerPart.unique (whole : IsIntegerPart v n) (other : IsIntegerPart v k) : n = k := by
  have left := abs_lt.mp whole.remainder
  have right := abs_lt.mp other.remainder
  have near : |((n - k : Int) : ℚ)| < 1 := by
    rw [abs_lt, Int.cast_sub]
    rcases le_total 0 v with above | below
    · constructor <;> linarith [whole.nonneg above, other.nonneg above]
    · constructor <;> linarith [whole.nonpos below, other.nonpos below]
  have same : |n - k| < 1 := by exact_mod_cast near
  exact sub_eq_zero.mp (Int.abs_lt_one_iff.mp same)

theorem isIntegerPart_intCast (n : Int) : IsIntegerPart n n :=
  ⟨by simp, Or.inl (sub_self _)⟩

/-- What is left of a quotient of integers without their quotient toward zero. -/
theorem div_sub_tdiv (a : Int) {b : Nat} (positive : 0 < b) :
    (a : ℚ) / b - (a.tdiv b : Int) = (a.tmod b : Int) / b := by
  have divisor : (b : ℚ) ≠ 0 := by exact_mod_cast positive.ne'
  have whole : (a : ℚ) = b * (a.tdiv b : Int) + (a.tmod b : Int) := by exact_mod_cast (Int.mul_tdiv_add_tmod a b).symm
  rw [div_sub' divisor, div_left_inj' divisor]
  linarith

/-- The integer part of a quotient of integers is their quotient toward zero. -/
theorem isIntegerPart_tdiv (a : Int) {b : Nat} (positive : 0 < b) : IsIntegerPart ((a : ℚ) / b) (a.tdiv b) := by
  have divisor : (0 : ℚ) < b := by exact_mod_cast positive
  have rest : a - a.tdiv b * b = a.tmod b := by
    rw [Int.tdiv_mul_self]
    omega
  obtain ⟨remainder, sign⟩ := isQuotient_tdiv a (show (b : Int) ≠ 0 by omega)
  rw [rest] at remainder sign
  constructor
  · have small : |((a.tmod b : Int) : ℚ)| < b := by
      rw [← Int.cast_abs, Int.abs_eq_natAbs]
      exact_mod_cast remainder
    rw [div_sub_tdiv a positive, abs_div, abs_of_pos divisor, div_lt_one divisor]
    exact small
  · rw [div_sub_tdiv a positive]
    rcases sign with nothing | same
    · exact Or.inl (by rw [nothing, Int.cast_zero, zero_div])
    · have scaled (c : Int) : SignType.sign ((c : ℚ) / b) = SignType.sign c := by
        rw [div_eq_mul_inv, sign_mul, sign_pos (inv_pos.mpr divisor), mul_one, sign_intCast]
      have injective : ∀ s t : SignType, (s : Int) = t → s = t := by decide
      rw [Int.sign_eq_sign, Int.sign_eq_sign] at same
      rw [scaled, scaled]
      exact Or.inr (injective _ _ same)

end

namespace Numeric.Binary64

theorem signed_div (negative : Bool) (a b : Nat) : signed negative (a / b) = (signed negative a).tdiv b := by
  cases negative
  · exact Int.ofNat_tdiv a b
  · exact (congrArg Neg.neg (Int.ofNat_tdiv a b)).trans (Int.neg_tdiv a b).symm

/-- Truncating a number gives its integer part. -/
theorem isIntegerPart_truncate {x : Binary64} (finite : x.isFinite = true) :
    ∃ n, x.truncate = some n ∧ IsIntegerPart x.toRat n := by
  cases x with
  | infinite | nan => cases finite
  | finite negative m e =>
    have value : (Binary64.finite negative m e).toRat =
        ((signed negative (m * scaleUp e) : Int) : ℚ) / scaleUp (-e) := by
      rw [toRat, ← scaleUp_div_scaleUp_neg, ← mul_div_assoc]
      cases negative <;> simp [signed]
    refine ⟨_, rfl, ?_⟩
    rw [value, signed_div]
    exact isIntegerPart_tdiv _ (scaleUp_pos (-e))

end Numeric.Binary64

namespace StoredReal

/-! ## Units -/

/-- The bits of a real that are all zero, or have an exponent that is not. -/
def Regular (bits : BitVec 24) : Prop :=
  bits = 0 ∨ bits.toNat / 2 ^ 16 % 2 ^ 7 ≠ 0

/-- The number is 17 bits in units of a power of two, and is zero or no smaller than the least real. -/
structure InUnits (v : ℚ) (n u : Int) : Prop where
  value : v = n * 2 ^ u
  short : n.natAbs < 2 ^ 17
  low : -78 ≤ u
  high : u ≤ 48
  least : v = 0 ∨ 2 ^ (-62 : Int) ≤ |v|

theorem InUnits.representable {v : ℚ} {n u : Int} (units : InUnits v n u) : Binary64.Representable v := by
  obtain ⟨rfl, short, low, high, -⟩ := units
  refine Binary64.representable_of_units (short.trans (by decide)) ?_ ?_
  · rw [Binary64.minExponent]
    omega
  · rw [Binary64.maxExponent]
    omega

theorem grid_leastIndex : grid leastIndex = 2 ^ (-62 : Int) := by
  norm_num [leastIndex, grid, StoredReal.magnitude]

theorem grid_indexLimit : grid indexLimit = 2 ^ (65 : Int) := by
  norm_num [indexLimit, grid, StoredReal.magnitude]

theorem exists_pattern {bits : BitVec 24} (field : bits.toNat / 2 ^ 16 % 2 ^ 7 ≠ 0) :
    ∃ negative index, leastIndex ≤ index ∧ index < indexLimit ∧ bits = pattern negative index := by
  have size := bits.isLt
  obtain ⟨index, offset⟩ : ∃ index : Int, index = (bits.toNat % 2 ^ 23 : Nat) - 63 * 2 ^ 16 := ⟨_, rfl⟩
  have least : leastIndex ≤ index := by
    rw [leastIndex]
    omega
  have limit : index < indexLimit := by
    rw [indexLimit]
    omega
  refine ⟨decide (bits.toNat / 2 ^ 23 = 1), index, least, limit, BitVec.eq_of_toNat_eq ?_⟩
  rw [toNat_pattern least limit]
  by_cases negative : bits.toNat / 2 ^ 23 = 1
  · rw [decide_eq_true negative, Bool.toNat_true]
    omega
  · rw [decide_eq_false negative, Bool.toNat_false]
    omega

/-- A regular real is a number of units that binary64 has. -/
theorem exists_units {bits : BitVec 24} (regular : Regular bits) : ∃ n u, InUnits (decode bits).toRat n u := by
  rcases regular with rfl | field
  · exact ⟨0, 0, by rw [toRat_decode_zero, Int.cast_zero, zero_mul], by decide, by decide, by decide,
      Or.inl toRat_decode_zero⟩
  · obtain ⟨negative, index, least, limit, rfl⟩ := exists_pattern field
    have magnitude := @abs_toRat_decode_pattern negative index least limit
    have reached : 2 ^ (-62 : Int) ≤ grid index := grid_leastIndex ▸ grid_strictMono.monotone least
    have value := @toRat_decode_pattern negative index least limit
    obtain ⟨exponent, fraction, inside, rfl⟩ := exists_index_eq index
    rw [leastIndex] at least
    rw [indexLimit] at limit
    refine ⟨Binary64.signed negative (2 ^ 16 + fraction), exponent - 16, ?_, ?_, by omega, by omega,
      Or.inr (magnitude ▸ reached)⟩
    · rw [value, grid_eq_units exponent inside.le]
      cases negative <;> simp only [Binary64.signed, if_true, Bool.false_eq_true, if_false] <;> push_cast <;> ring
    · cases negative <;> simp only [Binary64.signed, if_true, Bool.false_eq_true, if_false] <;> omega

/-! ## Parts -/

/-- A whole number of at most 17 bits is a magnitude, in any units. -/
theorem exists_grid_eq {r : Nat} (nonzero : r ≠ 0) (short : r < 2 ^ 17) (u : Int) :
    ∃ index, grid index = r * 2 ^ u := by
  have low : 2 ^ r.log2 ≤ r := Nat.log2_self_le nonzero
  have high : r < 2 ^ (r.log2 + 1) := Nat.lt_log2_self
  have leading : r.log2 < 17 := (Nat.log2_lt nonzero).mpr short
  obtain ⟨rest, split⟩ := Nat.exists_eq_add_of_le low
  obtain ⟨shift, places⟩ := Nat.exists_eq_add_of_le (Nat.le_of_lt_succ leading)
  have whole : 2 ^ 16 = 2 ^ r.log2 * 2 ^ shift := by rw [← Nat.pow_add, ← places]
  have inside : rest * 2 ^ shift ≤ 2 ^ 16 := by
    rw [whole]
    exact Nat.mul_le_mul_right _ (by omega)
  refine ⟨(u + r.log2) * 2 ^ 16 + (rest * 2 ^ shift : Nat), ?_⟩
  have units : (2 : ℚ) ^ u = 2 ^ shift * 2 ^ (u - shift) := zpow_eq_units u shift
  have moved : u + r.log2 - 16 = u - shift := by omega
  have scaled : ((2 : ℚ) ^ 16 + (rest * 2 ^ shift : Nat)) = r * 2 ^ shift := by
    have product : 2 ^ 16 + rest * 2 ^ shift = r * 2 ^ shift := by
      rw [whole, ← Nat.add_mul, ← split]
    exact_mod_cast product
  rw [grid_eq_units _ inside, moved, scaled, units, mul_assoc]

/-- What is left of 17 bits in units of a small power of two is nothing, or no smaller than the least real. -/
theorem least_of_rest {n : Int} {k : Nat} (short : n.natAbs < 2 ^ 17) (whole : n.tdiv (2 ^ k : Nat) ≠ 0) {r : Int}
    (nonzero : r ≠ 0) : (2 : ℚ) ^ (-62 : Int) ≤ |(r : ℚ) * 2 ^ (-(k : Int))| := by
  have large : 2 ^ k ≤ n.natAbs := by
    by_contra less
    have quotient : (n.tdiv (2 ^ k : Nat)).natAbs = n.natAbs / 2 ^ k := Int.natAbs_tdiv n _
    rw [Nat.div_eq_of_lt (not_le.mp less)] at quotient
    exact whole (Int.natAbs_eq_zero.mp quotient)
  have bound : k < 17 := (Nat.pow_lt_pow_iff_right (by decide)).mp (large.trans_lt short)
  have one : (1 : ℚ) ≤ |(r : ℚ)| := by exact_mod_cast Int.one_le_abs nonzero
  rw [abs_mul, abs_of_pos (zpow_pos (zero_lt_two' ℚ) _)]
  calc (2 : ℚ) ^ (-62 : Int) ≤ 2 ^ (-(k : Int)) := zpow_le_zpow_right₀ one_le_two (by omega)
    _ ≤ |(r : ℚ)| * 2 ^ (-(k : Int)) := le_mul_of_one_le_left (by positivity) one

/-- The integer part is a binary64 number, and the fraction is in the same units as the number. -/
theorem exists_parts {v : ℚ} {n u : Int} (units : InUnits v n u) :
    ∃ t r : Int, IsIntegerPart v t ∧ Binary64.Representable t ∧ InUnits (v - t) r u := by
  have exact := units.representable
  obtain ⟨rfl, short, low, high, least⟩ := units
  rcases le_or_gt 0 u with whole | finer
  · obtain ⟨k, rfl⟩ := Int.eq_ofNat_of_zero_le whole
    have value : (n : ℚ) * 2 ^ (k : Int) = (n * 2 ^ k : Int) := by
      rw [zpow_natCast]
      push_cast
      rfl
    rw [value] at exact ⊢
    refine ⟨n * 2 ^ k, 0, isIntegerPart_intCast _, exact, ?_⟩
    rw [sub_self]
    exact ⟨by rw [Int.cast_zero, zero_mul], by decide, low, high, Or.inl rfl⟩
  · obtain ⟨k, rfl⟩ : ∃ k : Nat, u = -(k : Int) := ⟨(-u).toNat, by omega⟩
    have power {a : Int} : (a : ℚ) * 2 ^ (-(k : Int)) = (a : ℚ) / (2 ^ k : Nat) := by
      rw [zpow_neg, zpow_natCast, ← div_eq_mul_inv, Nat.cast_pow, Nat.cast_ofNat]
    have left : (n : ℚ) * 2 ^ (-(k : Int)) - (n.tdiv (2 ^ k : Nat) : Int) =
        (n.tmod (2 ^ k : Nat) : Int) * 2 ^ (-(k : Int)) := by
      rw [power, power, div_sub_tdiv n (Nat.two_pow_pos k)]
    have quotient : (n.tdiv (2 ^ k : Nat)).natAbs ≤ n.natAbs := Int.natAbs_tdiv_le_natAbs n _
    have rest : (n.tmod (2 ^ k : Nat)).natAbs ≤ n.natAbs := by
      rw [Int.natAbs_tmod]
      exact Nat.mod_le _ _
    refine ⟨n.tdiv (2 ^ k : Nat), n.tmod (2 ^ k : Nat), power ▸ isIntegerPart_tdiv n (Nat.two_pow_pos k),
      Binary64.representable_intCast (by omega), left, by omega, low, high, ?_⟩
    by_cases none : n.tdiv (2 ^ k : Nat) = 0
    · rwa [none, Int.cast_zero, sub_zero]
    · rw [left]
      by_cases zero : n.tmod (2 ^ k : Nat) = 0
      · exact Or.inl (by rw [zero, Int.cast_zero, zero_mul])
      · exact Or.inr (least_of_rest short none zero)

/-! ## Storing -/

/-- A number of 17 bits that is not too small is stored as it is. -/
theorem encode_of_units {x : Binary64} {n u : Int} (finite : x.isFinite = true) (units : InUnits x.toRat n u) :
    ∃ bits, encode x = .ok bits ∧ (decode bits).toRat = x.toRat := by
  obtain ⟨value, short, low, high, least⟩ := units
  rcases least with zero | least
  · exact ⟨0, encode_of_toRat_eq_zero finite zero, toRat_decode_zero.trans zero.symm⟩
  have size : |x.toRat| = (n.natAbs : ℚ) * 2 ^ u := by
    rw [value, abs_mul, abs_of_pos (zpow_pos (zero_lt_two' ℚ) u), Nat.cast_natAbs, Int.cast_abs]
  have nonzero : n.natAbs ≠ 0 := by
    intro none
    rw [size, none, Nat.cast_zero, zero_mul] at least
    exact absurd least (not_le.mpr (by positivity))
  obtain ⟨index, magnitude⟩ := exists_grid_eq nonzero short u
  rw [← size] at magnitude
  have reached : leastIndex ≤ index := by
    rw [← grid_strictMono.le_iff_le, grid_leastIndex, magnitude]
    exact least
  have limit : index < indexLimit := by
    rw [← grid_strictMono.lt_iff_lt, grid_indexLimit, magnitude, size]
    calc (n.natAbs : ℚ) * 2 ^ u < 2 ^ 17 * 2 ^ u := mul_lt_mul_of_pos_right (by exact_mod_cast short) (by positivity)
      _ ≤ 2 ^ 17 * 2 ^ (48 : Int) := mul_le_mul_of_nonneg_left (zpow_le_zpow_right₀ one_le_two high) (by norm_num)
      _ = 2 ^ (65 : Int) := by norm_num
  refine ⟨_, encode_of_inside finite (magnitude ▸ nearest_grid index) reached limit, ?_⟩
  rw [toRat_decode_pattern reached limit, magnitude]
  rcases lt_or_ge x.toRat 0 with negative | nonneg
  · rw [decide_eq_true negative, if_pos rfl, abs_of_neg negative, neg_neg]
  · rw [decide_eq_false nonneg.not_gt, if_neg Bool.false_ne_true, abs_of_nonneg nonneg]

/-- The fraction of a stored real is stored exactly. -/
theorem exists_fraction {bits : BitVec 24} (regular : Regular bits) :
    ∃ t f, (decode bits).truncate = some t ∧ IsIntegerPart (decode bits).toRat t ∧
      encode ((decode bits).sub (.ofInt t)) = .ok f ∧ (decode f).toRat = (decode bits).toRat - t := by
  have finite := isFinite_decode bits
  obtain ⟨n, u, units⟩ := exists_units regular
  obtain ⟨t, r, whole, exact, rest⟩ := exists_parts units
  obtain ⟨other, truncated, also⟩ := Binary64.isIntegerPart_truncate finite
  cases whole.unique also
  have difference := Binary64.standsFor_sub ⟨finite, rfl⟩ (Binary64.standsFor_ofInt exact) rest.representable
  obtain ⟨f, stored, kept⟩ := encode_of_units difference.finite (difference.value.symm ▸ rest)
  exact ⟨t, f, truncated, whole, stored, kept.trans difference.value⟩

end StoredReal

end WordMachine
