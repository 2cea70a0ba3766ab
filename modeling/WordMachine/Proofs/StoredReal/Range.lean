import WordMachine.Proofs.StoredReal.Rounding

/-!
# The range of stored reals

A real is rounded before its exponent is looked at. So a magnitude a little below a power of two counts as that power
at both ends of the range: the last quarter of a unit below `2 ^ -62` is stored, and the one below `2 ^ 65` is refused
(`stored_range`). In between the stored value has the sign of the number and is within a part in `2 ^ 17` of it.
-/
namespace WordMachine.StoredReal

open Numeric

section

variable {x : Binary64} (finite : x.isFinite = true)

include finite

/-- Below the lower threshold nothing is stored but zero. -/
theorem encode_of_small (small : |x.toRat| < (1 - 1 / 2 ^ 18) * 2 ^ (-62 : Int)) : encode x = .ok 0 := by
  by_cases zero : x.toRat = 0
  · exact encode_of_toRat_eq_zero finite zero
  · obtain ⟨index, nearest⟩ := exists_nearest finite zero
    refine encode_of_tiny finite nearest (not_le.mp fun reached => ?_)
    exact absurd small ((nearest.power_le_iff (-62)).mp reached).not_gt

/-- From the upper threshold on nothing is stored at all. -/
theorem encode_of_large (large : (1 - 1 / 2 ^ 18) * 2 ^ (65 : Int) ≤ |x.toRat|) :
    encode x = .error (.realTooLarge x) := by
  have positive : (0 : ℚ) < (1 - 1 / 2 ^ 18) * 2 ^ (65 : Int) := by norm_num
  obtain ⟨index, nearest⟩ := exists_nearest finite (abs_pos.mp (positive.trans_le large))
  have limit : indexLimit ≤ index := (nearest.power_le_iff 65).mpr large
  rw [encode_of_nearest finite nearest, if_pos limit]

theorem encode_of_between (least : (1 - 1 / 2 ^ 18) * 2 ^ (-62 : Int) ≤ |x.toRat|)
    (limit : |x.toRat| < (1 - 1 / 2 ^ 18) * 2 ^ (65 : Int)) :
    ∃ bits, encode x = .ok bits ∧ bits ≠ 0 ∧ SignType.sign (decode bits).toRat = SignType.sign x.toRat ∧
      |(decode bits).toRat - x.toRat| ≤ |x.toRat| / 2 ^ 17 := by
  obtain ⟨index, nearest, reached, bounded⟩ := exists_inside finite least limit
  refine ⟨_, encode_of_inside finite nearest reached bounded, pattern_ne_zero reached bounded, ?_, ?_⟩
  · rw [toRat_decode_pattern reached bounded]
    rcases lt_or_gt_of_ne (abs_pos.mp nearest.pos) with below | above
    · rw [decide_eq_true below, if_pos rfl, sign_neg below, sign_neg (neg_neg_of_pos (grid_pos index))]
    · rw [decide_eq_false above.not_gt, if_neg Bool.false_ne_true, sign_pos above, sign_pos (grid_pos index)]
  · rw [toRat_decode_pattern reached bounded, abs_signed_sub]
    exact nearest.error_le

/-- A number from zero to one is stored as one of these, and as one exactly from half a unit below one on. -/
theorem encode_below_one (nonneg : 0 ≤ x.toRat) (below : x.toRat < 1) :
    ∃ bits, encode x = .ok bits ∧ 0 ≤ (decode bits).toRat ∧ (decode bits).toRat ≤ 1 ∧
      ((decode bits).toRat < 1 ↔ x.toRat < 1 - 1 / 2 ^ 18) := by
  have size : |x.toRat| = x.toRat := abs_of_nonneg nonneg
  rcases lt_or_ge (abs x.toRat) ((1 - 1 / 2 ^ 18) * 2 ^ (-62 : Int)) with small | least
  · refine ⟨0, encode_of_small finite small, ?_⟩
    have under : x.toRat < 1 - 1 / 2 ^ 18 := (size ▸ small).trans_le (by norm_num)
    rw [toRat_decode_zero]
    exact ⟨le_rfl, zero_le_one, fun _ => under, fun _ => zero_lt_one⟩
  · have under : |x.toRat| < (1 - 1 / 2 ^ 18) * 2 ^ (65 : Int) := (size ▸ below).trans (by norm_num)
    obtain ⟨index, nearest, reached, limit⟩ := exists_inside finite least under
    have one : grid 0 = 1 := by norm_num [grid, magnitude]
    have bounded : index ≤ 0 := nearest.le_of_le (nearest_grid 0) (by rw [one, size]; exact below.le)
    refine ⟨_, encode_of_inside finite nearest reached limit, ?_⟩
    rw [toRat_decode_pattern reached limit, decide_eq_false nonneg.not_gt, if_neg Bool.false_ne_true, ← one]
    refine ⟨(grid_pos index).le, grid_strictMono.monotone bounded, ?_⟩
    rw [grid_strictMono.lt_iff_lt, one, ← size, ← not_le, ← not_le, not_iff_not]
    simpa using nearest.power_le_iff 0

/-- Which reals are stored as zero, which do not fit, and how far from a number its stored value is. -/
theorem stored_range :
    (encode x = .ok 0 ↔ |x.toRat| < (1 - 1 / 2 ^ 18) * 2 ^ (-62 : Int)) ∧
    (encode x = .error (.realTooLarge x) ↔ (1 - 1 / 2 ^ 18) * 2 ^ (65 : Int) ≤ |x.toRat|) ∧
    ((1 - 1 / 2 ^ 18) * 2 ^ (-62 : Int) ≤ |x.toRat| → |x.toRat| < (1 - 1 / 2 ^ 18) * 2 ^ (65 : Int) →
      ∃ bits, encode x = .ok bits ∧ bits ≠ 0 ∧ SignType.sign (decode bits).toRat = SignType.sign x.toRat ∧
        |(decode bits).toRat - x.toRat| ≤ |x.toRat| / 2 ^ 17) := by
  refine ⟨⟨fun zero => ?_, encode_of_small finite⟩, ⟨fun refused => ?_, encode_of_large finite⟩,
    encode_of_between finite⟩
  · by_contra least
    rcases le_or_gt ((1 - 1 / 2 ^ 18) * 2 ^ (65 : Int)) (abs x.toRat) with large | below
    · cases zero.symm.trans (encode_of_large finite large)
    · obtain ⟨bits, stored, nonzero, -⟩ := encode_of_between finite (not_lt.mp least) below
      cases zero.symm.trans stored
      exact nonzero rfl
  · by_contra limit
    rcases lt_or_ge (abs x.toRat) ((1 - 1 / 2 ^ 18) * 2 ^ (-62 : Int)) with small | above
    · cases refused.symm.trans (encode_of_small finite small)
    · obtain ⟨bits, stored, -⟩ := encode_of_between finite above (not_le.mp limit)
      cases refused.symm.trans stored

end

/-- A third is stored with an error of a third of a unit. -/
theorem third_in_range :
    let x : Binary64 := .ofRatio false 1 3
    ∃ bits, encode x = .ok bits ∧ bits ≠ 0 ∧ SignType.sign (decode bits).toRat = SignType.sign x.toRat ∧
      |(decode bits).toRat - x.toRat| ≤ |x.toRat| / 2 ^ 17 := by
  intro x
  have value : x.toRat = 6004799503160661 * 2 ^ (-54 : Int) := by
    have form : x = .finite false 6004799503160661 (-54) := by decide +kernel
    rw [form, Binary64.toRat_finite]
    norm_num
  refine (stored_range (by decide +kernel : x.isFinite = true)).2.2 ?_ ?_
  · rw [value]
    norm_num [abs_of_pos]
  · rw [value]
    norm_num [abs_of_pos]

/-- A quarter of a unit below `2 ^ -62`, in units of the magnitudes from there on. -/
def belowLeast : Binary64 :=
  .ofBits 0x3c0ffff800000000

/-- The same part of `2 ^ 65` below it. -/
def belowLimit : Binary64 :=
  .ofBits 0x43fffff800000000

/-- The ends of the range are powers of two only after rounding: what is a little below the one is stored as if it were
the power, and what is a little below the other is refused as if it were. -/
theorem ends_of_range_rounded :
    (belowLeast.isFinite = true ∧ |belowLeast.toRat| < 2 ^ (-62 : Int) ∧ encode belowLeast = .ok 0x10000) ∧
    (belowLimit.isFinite = true ∧ 2 ^ (-62 : Int) ≤ |belowLimit.toRat| ∧ |belowLimit.toRat| < 2 ^ (65 : Int) ∧
      encode belowLimit = .error (.realTooLarge belowLimit)) := by
  have lower : belowLeast = .finite false (2 ^ 53 - 2 ^ 35) (-115) := by decide +kernel
  have upper : belowLimit = .finite false (2 ^ 53 - 2 ^ 35) 12 := by decide +kernel
  rw [lower, upper, Binary64.abs_toRat_finite, Binary64.abs_toRat_finite]
  exact ⟨⟨rfl, by norm_num, by decide +kernel⟩, rfl, by norm_num, by norm_num, by decide +kernel⟩

end WordMachine.StoredReal
