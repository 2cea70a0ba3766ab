import WordMachine.Proofs.StoredReal.Grid

/-!
# Reals are stored to the nearest

A real is stored as the index of the magnitude nearest to its own, with its sign in front (`encode_of_nearest`), and
what is stored is read back as that magnitude with that sign (`toRat_decode_pattern`). Whether a magnitude is too
large or too small is decided by its index, that is, after it is rounded.
-/
namespace WordMachine

namespace Numeric

/-- A rounded quotient is at most half a unit away from the exact one. -/
theorem abs_roundDiv_sub_le (num : Nat) {den : Nat} (hden : 0 < den) :
    |(roundDiv num den : ℚ) - num / den| ≤ 1 / 2 := by
  have positive : (0 : ℚ) < den := by exact_mod_cast hden
  have above : (2 : ℚ) * (roundDiv num den * den) ≤ 2 * num + den := by
    exact_mod_cast two_mul_roundDiv_mul_le num hden
  have below : (2 : ℚ) * num ≤ 2 * (roundDiv num den * den) + den := by
    exact_mod_cast two_mul_le_roundDiv_mul_add num hden
  rw [sub_div' positive.ne', abs_div, abs_of_pos positive, div_le_iff₀ positive, abs_le]
  constructor <;> linarith

/-- A quotient half way between two numbers is rounded to the even one. -/
theorem even_roundDiv_of_tie {num den : Nat} (hden : 0 < den)
    (tie : |(roundDiv num den : ℚ) - num / den| = 1 / 2) : Even (roundDiv num den) := by
  have positive : (0 : ℚ) < den := by exact_mod_cast hden
  have exact : 2 * (roundDiv num den * den) = 2 * num + den ∨ 2 * num = 2 * (roundDiv num den * den) + den := by
    rw [sub_div' positive.ne', abs_div, abs_of_pos positive, div_eq_iff positive.ne', abs_eq (by positivity)] at tie
    rcases tie with above | below
    · left
      have doubled : (2 : ℚ) * (roundDiv num den * den) = 2 * num + den := by linarith
      exact_mod_cast doubled
    · right
      have doubled : (2 : ℚ) * num = 2 * (roundDiv num den * den) + den := by linarith
      exact_mod_cast doubled
  have whole := Nat.div_add_mod num den
  have rest := Nat.mod_lt num hden
  have product : num / den * den = den * (num / den) := Nat.mul_comm _ _
  have next : (num / den + 1) * den = den * (num / den) + den := by ring
  rw [Nat.even_iff]
  unfold roundDiv at exact ⊢
  dsimp only at exact ⊢
  split
  next less =>
    rw [if_pos less] at exact
    omega
  next less =>
    rw [if_neg less] at exact
    split
    next more =>
      rw [if_pos more] at exact
      omega
    · omega

namespace Binary64

variable (negative : Bool) (m : Nat) (e : Int)

theorem toRat_finite : (finite negative m e).toRat = if negative then -((m : ℚ) * 2 ^ e) else (m : ℚ) * 2 ^ e := by
  cases negative <;> simp [toRat, signed]

theorem abs_toRat_finite : |(finite negative m e).toRat| = m * 2 ^ e := by
  have nonneg : (0 : ℚ) ≤ m * 2 ^ e := by positivity
  rw [toRat_finite]
  cases negative
  · exact abs_of_nonneg nonneg
  · exact (abs_neg _).trans (abs_of_nonneg nonneg)

theorem isFinite_neg (x : Binary64) : x.neg.isFinite = x.isFinite := by
  cases x <;> rfl

theorem toRat_neg (x : Binary64) : x.neg.toRat = -x.toRat := by
  cases x with
  | infinite | nan => simp [neg, toRat]
  | finite negative m e =>
    rw [neg, toRat_finite, toRat_finite]
    cases negative <;> simp

end Binary64

end Numeric

namespace StoredReal

open Numeric

/-- A magnitude with the sign of a number is as far from the number as it is from the number's magnitude. -/
theorem abs_signed_sub (size x : ℚ) : |(if decide (x < 0) then -size else size) - x| = |size - abs x| := by
  rcases lt_or_ge x 0 with below | above
  · rw [decide_eq_true below, if_pos rfl, abs_of_neg below, ← abs_neg, neg_sub, sub_neg_eq_add, sub_neg_eq_add,
      add_comm]
  · rw [decide_eq_false above.not_gt, if_neg Bool.false_ne_true, abs_of_nonneg above]

/-! ## The nearest magnitude -/

/-- From a magnitude to the next one is at least a unit, and from a power of two two of the units before it. -/
theorem grid_add_unit_le (exponent : Int) {n : Nat} (bound : n ≤ 2 ^ 16) :
    grid (exponent * 2 ^ 16 + n) + 2 ^ (exponent - 16) ≤ grid (exponent * 2 ^ 16 + n + 1) := by
  rcases Nat.lt_or_eq_of_le bound with inside | rfl
  · exact (grid_succ exponent inside).ge
  · have carried : exponent * 2 ^ 16 + ((2 ^ 16 : Nat) : Int) = (exponent + 1) * 2 ^ 16 + (0 : Nat) := by
      push_cast
      ring
    have doubled : (2 : ℚ) ^ (exponent - 16) ≤ 2 ^ (exponent + 1 - 16) :=
      zpow_le_zpow_right₀ one_le_two (by omega)
    rw [carried, grid_succ (exponent + 1) (by norm_num)]
    linarith

/-- Rounding to whole units gives the nearest magnitude, also where it gives the next power of two. -/
theorem nearest_of_units {exponent : Int} {n : Nat} {t : ℚ} (bound : n ≤ 2 ^ 16) (nonneg : 0 ≤ t)
    (close : |n - t| ≤ 1 / 2) (even : |n - t| = 1 / 2 → Even n) :
    Nearest ((2 ^ 16 + t) * 2 ^ (exponent - 16)) (exponent * 2 ^ 16 + n) := by
  have here := grid_eq_units exponent bound
  have next := grid_add_unit_le exponent bound
  have before := grid_sub_one exponent bound
  have unit : (0 : ℚ) < 2 ^ (exponent - 16) := by positivity
  generalize (2 : ℚ) ^ (exponent - 16) = u at *
  -- The error of rounding, in place of the fraction, makes all that follows linear.
  obtain ⟨error, rounded⟩ : ∃ error, error = (n - t) * u := ⟨_, rfl⟩
  have exact : (2 ^ 16 + t) * u = grid (exponent * 2 ^ 16 + n) - error := by
    rw [here, rounded]
    ring
  have above : error ≤ u / 2 := by
    have scaled := mul_le_mul_of_nonneg_right (abs_le.mp close).2 unit.le
    linarith
  have below : -(u / 2) ≤ error := by
    have scaled := mul_le_mul_of_nonneg_right (abs_le.mp close).1 unit.le
    linarith
  have tie_of_error (tie : |error| = u / 2) : |(n : ℚ) - t| = 1 / 2 := by
    rw [rounded, abs_mul, abs_of_pos unit] at tie
    exact mul_right_cancel₀ unit.ne' (by linarith)
  have nonpos (zero : n = 0) : error ≤ 0 := by
    rw [rounded, zero, Nat.cast_zero, zero_sub]
    exact mul_nonpos_of_nonpos_of_nonneg (neg_nonpos.mpr nonneg) unit.le
  rw [exact]
  refine nearest_of_neighbours ?_ (by linarith) fun tie => (even_index_iff exponent n).mpr (even (tie_of_error ?_))
  · rcases before with ⟨-, step⟩ | ⟨zero, step⟩
    · rw [step]
      linarith
    · rw [step]
      linarith [nonpos zero]
  · rcases tie with lowerTie | upperTie
    · rcases before with ⟨-, step⟩ | ⟨zero, step⟩
      · rw [abs_of_nonneg (by linarith)]
        linarith
      · rw [step] at lowerTie
        linarith [nonpos zero]
    · rw [abs_of_nonpos (by linarith)]
      linarith

/-- The exponent and the fraction of a number that is not zero are those of the nearest magnitude. -/
theorem nearest_normalise {m fraction : Nat} {e exponent : Int} (hm : m ≠ 0)
    (normal : normalise m e = (exponent, fraction)) :
    fraction < 2 ^ 16 ∧ Nearest (m * 2 ^ e) (exponent * 2 ^ 16 + fraction) := by
  have low : 2 ^ m.log2 ≤ m := Nat.log2_self_le hm
  have high : m < 2 ^ (m.log2 + 1) := Nat.lt_log2_self
  have positive : 0 < 2 ^ m.log2 := by positivity
  obtain ⟨rest, split⟩ := Nat.exists_eq_add_of_le low
  have small : rest < 2 ^ m.log2 := by
    rw [Nat.pow_succ] at high
    omega
  have units : (m : ℚ) * 2 ^ e =
      (2 ^ 16 + ((rest * 2 ^ 16 : Nat) : ℚ) / ((2 ^ m.log2 : Nat) : ℚ)) * 2 ^ (e + m.log2 - 16) := by
    have whole : (m : ℚ) = 2 ^ m.log2 + rest := by exact_mod_cast split
    rw [zpow_sub₀ (two_ne_zero' ℚ), zpow_add₀ (two_ne_zero' ℚ), zpow_natCast]
    generalize m.log2 = leading at whole
    rw [whole]
    push_cast
    field_simp
    norm_num
    ring
  have bound : roundDiv (rest * 2 ^ 16) (2 ^ m.log2) ≤ 2 ^ 16 := by
    have above := two_mul_roundDiv_mul_le (rest * 2 ^ 16) positive
    have scaled : rest * 2 ^ 16 < 2 ^ 16 * 2 ^ m.log2 := by omega
    by_contra beyond
    have least : (2 ^ 16 + 1) * 2 ^ m.log2 ≤ roundDiv (rest * 2 ^ 16) (2 ^ m.log2) * 2 ^ m.log2 :=
      Nat.mul_le_mul_right _ (by omega)
    omega
  have nearest : Nearest (m * 2 ^ e) ((e + m.log2) * 2 ^ 16 + roundDiv (rest * 2 ^ 16) (2 ^ m.log2)) := by
    rw [units]
    exact nearest_of_units bound (by positivity) (abs_roundDiv_sub_le _ positive) (even_roundDiv_of_tie positive)
  have remainder : m - 2 ^ m.log2 = rest := by omega
  simp only [normalise, fractionBits, remainder] at normal
  split at normal
  next carried =>
    cases normal
    refine ⟨by norm_num, ?_⟩
    have index : (e + m.log2 + 1) * 2 ^ 16 + ((0 : Nat) : Int) = (e + m.log2) * 2 ^ 16 + ((2 ^ 16 : Nat) : Int) := by
      push_cast
      ring
    rw [index, ← carried]
    exact nearest
  next kept =>
    cases normal
    exact ⟨Nat.lt_of_le_of_ne bound kept, nearest⟩

/-- Half a unit of the magnitudes before a power of two is enough to be rounded up to it. -/
theorem Nearest.power_le_iff {a : ℚ} {k : Int} (nearest : Nearest a k) (exponent : Int) :
    exponent * 2 ^ 16 ≤ k ↔ (1 - 1 / 2 ^ 18) * 2 ^ exponent ≤ a := by
  have even : Even (exponent * 2 ^ 16) := ⟨exponent * 2 ^ 15, by ring⟩
  have here := grid_eq_units exponent (Nat.zero_le (2 ^ 16))
  have before := grid_sub_one exponent (Nat.zero_le (2 ^ 16))
  have power : (2 : ℚ) ^ exponent = 2 ^ 16 * 2 ^ (exponent - 16) := zpow_eq_units exponent 16
  simp only [Nat.cast_zero, add_zero, Nat.le_zero, one_ne_zero, false_and, true_and, false_or] at here before
  rw [nearest.le_iff_of_even even, before, here, power]
  constructor <;> intro bound <;> linarith

/-! ## Patterns -/

/-- The least index of a stored magnitude, that of `2 ^ -62`. -/
def leastIndex : Int :=
  -62 * 2 ^ 16

/-- The index of the first magnitude that is too large, `2 ^ 65`. -/
def indexLimit : Int :=
  65 * 2 ^ 16

def pattern (negative : Bool) (index : Int) : BitVec 24 :=
  .ofNat 24 (negative.toNat * 2 ^ 23 + (index + 63 * 2 ^ 16).toNat)

section

variable {negative : Bool} {index : Int} (least : leastIndex ≤ index) (limit : index < indexLimit)

include least limit

theorem toNat_pattern :
    (pattern negative index).toNat = negative.toNat * 2 ^ 23 + (index + 63 * 2 ^ 16).toNat := by
  rw [leastIndex] at least
  rw [indexLimit] at limit
  rw [pattern, BitVec.toNat_ofNat, Nat.mod_eq_of_lt]
  have sign : negative.toNat ≤ 1 := Bool.toNat_le negative
  omega

theorem pattern_ne_zero : pattern negative index ≠ 0 := by
  intro zero
  have value := @toNat_pattern negative index least limit
  rw [zero] at value
  rw [leastIndex] at least
  change 0 = _ at value
  omega

/-- A stored magnitude is read back with its sign. -/
theorem decode_pattern :
    ∃ m e, m ≠ 0 ∧ decode (pattern negative index) = .finite negative m e ∧ (m : ℚ) * 2 ^ e = grid index := by
  have bits := @toNat_pattern negative index least limit
  obtain ⟨exponent, fraction, inside, rfl⟩ := exists_index_eq index
  rw [leastIndex] at least
  rw [indexLimit] at limit
  have field : (exponent * 2 ^ 16 + fraction + 63 * 2 ^ 16).toNat = (exponent + 63).toNat * 2 ^ 16 + fraction := by
    omega
  rw [field] at bits
  have sign : (pattern negative (exponent * 2 ^ 16 + fraction)).toNat / 2 ^ 23 = negative.toNat := by omega
  have middle : (pattern negative (exponent * 2 ^ 16 + fraction)).toNat / 2 ^ 16 % 2 ^ 7 = (exponent + 63).toNat := by
    omega
  have rest : (pattern negative (exponent * 2 ^ 16 + fraction)).toNat % 2 ^ 16 = fraction := by omega
  have nonzero : (pattern negative (exponent * 2 ^ 16 + fraction)).toNat ≠ 0 := by omega
  refine ⟨(2 ^ 16 + fraction) * 2 ^ 36, exponent - 52, by positivity, ?_, ?_⟩
  · unfold decode
    simp only [fractionBits, bias, sign, middle, rest, if_neg nonzero, Binary64.finite.injEq, true_and]
    constructor
    · cases negative <;> rfl
    · omega
  · have shift : (2 : ℚ) ^ (exponent - 16) = 2 ^ 36 * 2 ^ (exponent - 16 - 36) := zpow_eq_units (exponent - 16) 36
    rw [grid_eq_units exponent inside.le, shift, sub_sub]
    push_cast
    ring

/-- The bits of a magnitude stand for it. -/
theorem toRat_decode_pattern :
    (decode (pattern negative index)).toRat = if negative then -grid index else grid index := by
  obtain ⟨m, e, -, decoded, value⟩ := @decode_pattern negative index least limit
  rw [decoded, Binary64.toRat_finite, value]

theorem abs_toRat_decode_pattern : |(decode (pattern negative index)).toRat| = grid index := by
  rw [toRat_decode_pattern least limit]
  cases negative <;> simp [abs_of_pos (grid_pos index)]

end

theorem toRat_decode_zero : (decode 0).toRat = 0 := by
  have zero : decode 0 = .zero false := rfl
  rw [zero, Binary64.zero, Binary64.toRat_eq_zero_iff]

/-! ## Storing -/

/-- What is stored is the nearest magnitude, if it is in range. -/
theorem encode_finite {negative : Bool} {m : Nat} {e : Int} (hm : m ≠ 0) :
    ∃ index, Nearest (m * 2 ^ e) index ∧
      encode (.finite negative m e) =
        if indexLimit ≤ index then .error (.realTooLarge (.finite negative m e))
        else if index < leastIndex then .ok 0
        else .ok (pattern negative index) := by
  cases normal : normalise m e with
  | mk exponent fraction =>
    obtain ⟨inside, nearest⟩ := nearest_normalise hm normal
    refine ⟨_, nearest, ?_⟩
    have large : maxField < exponent + bias ↔ indexLimit ≤ exponent * 2 ^ 16 + fraction := by
      simp only [maxField, bias, indexLimit]
      omega
    have tiny : exponent + bias < 1 ↔ exponent * 2 ^ 16 + fraction < leastIndex := by
      simp only [bias, leastIndex]
      omega
    rw [encode_of_normalise negative hm normal]
    simp only [large, tiny]
    split
    · rfl
    · split
      · rfl
      next kept =>
        have field : (exponent + bias).toNat * 2 ^ fractionBits + fraction =
            (exponent * 2 ^ 16 + fraction + 63 * 2 ^ 16).toNat := by
          simp only [bias, fractionBits, leastIndex] at kept ⊢
          omega
        rw [pattern, Nat.add_assoc, field]

section

variable {x : Binary64} (finite : x.isFinite = true)

include finite

theorem encode_of_toRat_eq_zero (zero : x.toRat = 0) : encode x = .ok 0 := by
  cases x with
  | infinite | nan => cases finite
  | finite negative m e => exact if_pos ((Binary64.toRat_eq_zero_iff negative m e).mp zero)

theorem exists_nearest (nonzero : x.toRat ≠ 0) : ∃ index, Nearest |x.toRat| index := by
  cases x with
  | infinite | nan => cases finite
  | finite negative m e =>
    have hm : m ≠ 0 := fun zero => nonzero ((Binary64.toRat_eq_zero_iff negative m e).mpr zero)
    obtain ⟨index, nearest, -⟩ := @encode_finite negative m e hm
    rw [Binary64.abs_toRat_finite]
    exact ⟨index, nearest⟩

/-- Between the ends of the range, which are rounded too, a number has a stored magnitude. -/
theorem exists_inside (least : (1 - 1 / 2 ^ 18) * 2 ^ (-62 : Int) ≤ |x.toRat|)
    (limit : |x.toRat| < (1 - 1 / 2 ^ 18) * 2 ^ (65 : Int)) :
    ∃ index, Nearest |x.toRat| index ∧ leastIndex ≤ index ∧ index < indexLimit := by
  have positive : (0 : ℚ) < (1 - 1 / 2 ^ 18) * 2 ^ (-62 : Int) := by norm_num
  obtain ⟨index, nearest⟩ := exists_nearest finite (abs_pos.mp (positive.trans_le least))
  refine ⟨index, nearest, (nearest.power_le_iff (-62)).mpr least, not_le.mp fun beyond => ?_⟩
  exact absurd limit ((nearest.power_le_iff 65).mp beyond).not_gt

/-- What is stored is the nearest magnitude with the sign of the number, unless it is too large or too small. -/
theorem encode_of_nearest {index : Int} (nearest : Nearest |x.toRat| index) :
    encode x =
      if indexLimit ≤ index then .error (.realTooLarge x)
      else if index < leastIndex then .ok 0
      else .ok (pattern (decide (x.toRat < 0)) index) := by
  have positive := nearest.pos
  cases x with
  | infinite | nan => cases finite
  | finite negative m e =>
    have hm : m ≠ 0 := fun zero => abs_pos.mp positive ((Binary64.toRat_eq_zero_iff negative m e).mpr zero)
    obtain ⟨other, same, encoded⟩ := @encode_finite negative m e hm
    rw [Binary64.abs_toRat_finite] at nearest positive
    cases same.unique nearest
    have sign : decide ((Binary64.finite negative m e).toRat < 0) = negative := by
      rw [Binary64.toRat_finite]
      cases negative
      · exact decide_eq_false positive.not_gt
      · exact decide_eq_true (neg_neg_of_pos positive)
    rw [encoded, sign]

theorem encode_of_tiny {index : Int} (nearest : Nearest |x.toRat| index) (tiny : index < leastIndex) :
    encode x = .ok 0 := by
  have limit : ¬ indexLimit ≤ index := not_le.mpr (tiny.trans (by decide : leastIndex < indexLimit))
  rw [encode_of_nearest finite nearest, if_neg limit, if_pos tiny]

/-- In range, the bits of the nearest magnitude are stored. -/
theorem encode_of_inside {index : Int} (nearest : Nearest |x.toRat| index) (least : leastIndex ≤ index)
    (limit : index < indexLimit) : encode x = .ok (pattern (decide (x.toRat < 0)) index) := by
  rw [encode_of_nearest finite nearest, if_neg (not_le.mpr limit), if_neg (not_lt.mpr least)]

end

end StoredReal

end WordMachine
