import WordMachine.Proofs.StoredReal.Rounding

/-!
# Results that need no rounding

A rational is representable if it is at most 53 bits in units of a power of two that a finite number may have as its
exponent. An operation whose exact result is representable gives that result: rounding a quotient takes units that are
at most as large (`two_zpow_floorLog2_le`), and in these the quotient is a whole number.
-/
namespace WordMachine.Numeric.Binary64

/-- The rational is one of the finite binary64 numbers. -/
def Representable (v : ℚ) : Prop :=
  ∃ (m : Nat) (e : Int), m < 2 ^ 53 ∧ minExponent ≤ e ∧ e ≤ maxExponent ∧ |v| = m * 2 ^ e

/-- The number is finite, and is this rational. -/
structure StandsFor (x : Binary64) (v : ℚ) : Prop where
  finite : x.isFinite = true
  value : x.toRat = v

theorem scaleUp_pos (e : Int) : 0 < scaleUp e :=
  Nat.two_pow_pos _

/-- A power of two as a quotient of whole numbers. -/
theorem scaleUp_div_scaleUp_neg (e : Int) : (scaleUp e : ℚ) / scaleUp (-e) = 2 ^ e := by
  have one {f : Int} (hf : f ≤ 0) : scaleUp f = 1 := by
    rw [scaleUp, Int.toNat_of_nonpos hf, Nat.pow_zero]
  rcases le_total 0 e with nonneg | nonpos
  · rw [cast_scaleUp nonneg, one (by omega), Nat.cast_one, div_one]
  · rw [cast_scaleUp (show 0 ≤ -e by omega), one nonpos, Nat.cast_one, zpow_neg, one_div, inv_inv]

theorem standsFor_zero (negative : Bool) : (zero negative).StandsFor 0 :=
  ⟨rfl, (toRat_eq_zero_iff negative 0 minExponent).mpr rfl⟩

theorem standsFor_finite (negative : Bool) (m : Nat) (e : Int) :
    (finite negative m e).StandsFor (if negative then -((m : ℚ) * 2 ^ e) else (m : ℚ) * 2 ^ e) :=
  ⟨rfl, toRat_finite negative m e⟩

/-! ## Quotients -/

theorem two_zpow_floorLog2_le {num den : Nat} (hnum : num ≠ 0) (hden : den ≠ 0) :
    (2 : ℚ) ^ floorLog2 num den ≤ num / den := by
  have positive : (0 : ℚ) < den := by exact_mod_cast Nat.pos_of_ne_zero hden
  rw [le_div_iff₀ positive]
  unfold floorLog2
  dsimp only
  split
  next reached =>
    generalize (num.log2 : Int) - den.log2 = guess at reached
    have scaled : (den : ℚ) * scaleUp guess ≤ num * scaleUp (-guess) := by exact_mod_cast reached
    have unit : (0 : ℚ) < scaleUp (-guess) := by exact_mod_cast scaleUp_pos (-guess)
    rw [← scaleUp_div_scaleUp_neg guess, div_mul_eq_mul_div, div_le_iff₀ unit, mul_comm]
    exact scaled
  · have low : (2 : ℚ) ^ num.log2 ≤ num := by exact_mod_cast Nat.log2_self_le hnum
    have high : (den : ℚ) ≤ 2 ^ (den.log2 + 1) := by exact_mod_cast (Nat.lt_log2_self (n := den)).le
    calc (2 : ℚ) ^ ((num.log2 : Int) - den.log2 - 1) * den
        ≤ 2 ^ ((num.log2 : Int) - den.log2 - 1) * 2 ^ (den.log2 + 1) :=
          mul_le_mul_of_nonneg_left high (by positivity)
      _ = 2 ^ num.log2 := by
          rw [← zpow_natCast, ← zpow_natCast, ← zpow_add₀ (two_ne_zero' ℚ)]
          congr 1
          push_cast
          ring
      _ ≤ num := low

/-- A quotient that is a whole number is not changed by rounding. -/
theorem roundDiv_of_eq {num den n : Nat} (hden : 0 < den) (exact : num = n * den) : roundDiv num den = n := by
  rw [roundDiv_of_dvd hden (by rw [exact, Nat.mul_mod_left]), exact, Nat.mul_div_cancel n hden]

/-- In the units that a quotient is rounded to, a representable one is a whole number. -/
theorem roundDiv_units {num den n : Nat} {unit : Int} (hden : 0 < den) (exact : (num : ℚ) / den = n * 2 ^ unit) :
    roundDiv (num * scaleUp (-unit)) (den * scaleUp unit) = n := by
  have positive : (den : ℚ) ≠ 0 := by exact_mod_cast hden.ne'
  have scale : (scaleUp (-unit) : ℚ) ≠ 0 := by exact_mod_cast (scaleUp_pos (-unit)).ne'
  refine roundDiv_of_eq (Nat.mul_pos hden (scaleUp_pos unit)) ?_
  rw [← scaleUp_div_scaleUp_neg unit, ← mul_div_assoc, div_eq_div_iff positive scale] at exact
  have whole : num * scaleUp (-unit) = n * scaleUp unit * den := by exact_mod_cast exact
  rw [whole, Nat.mul_assoc, Nat.mul_comm (scaleUp unit)]

variable (negative : Bool)

/-- A quotient that is representable is not rounded. -/
theorem standsFor_ofRatio {num den : Nat} (hden : 0 < den) (exact : Representable (num / den)) :
    (ofRatio negative num den).StandsFor (if negative then -((num : ℚ) / den) else num / den) := by
  by_cases hnum : num = 0
  · rw [ofRatio, if_pos hnum, hnum]
    simpa using standsFor_zero negative
  obtain ⟨m, e, short, low, high, value⟩ := exact
  rw [abs_of_nonneg (by positivity)] at value
  have power : (2 : ℚ) ^ floorLog2 num den < 2 ^ (e + 53) := by
    calc (2 : ℚ) ^ floorLog2 num den ≤ m * 2 ^ e := value ▸ two_zpow_floorLog2_le hnum hden.ne'
      _ < 2 ^ 53 * 2 ^ e := mul_lt_mul_of_pos_right (by exact_mod_cast short) (by positivity)
      _ = 2 ^ (e + 53) := by
        rw [mul_comm, zpow_add₀ (two_ne_zero' ℚ)]
        norm_num
  have bound : floorLog2 num den < e + 53 := (zpow_lt_zpow_iff_right₀ one_lt_two).mp power
  have unit : max (floorLog2 num den - 52) minExponent ≤ e := max_le (by omega) low
  rw [ofRatio, if_neg hnum]
  dsimp only
  rw [show ((fractionBits : Nat) : Int) = 52 from rfl]
  generalize max (floorLog2 num den - 52) minExponent = u at unit
  -- The quotient in units of `2 ^ u`.
  obtain ⟨k, rfl⟩ : ∃ k : Nat, e = u + k := ⟨(e - u).toNat, by omega⟩
  have units : (num : ℚ) / den = (m * 2 ^ k : Nat) * 2 ^ u := by
    rw [value, zpow_add₀ (two_ne_zero' ℚ), zpow_natCast]
    push_cast
    ring
  have nonzero : m * 2 ^ k ≠ 0 := by
    intro zero
    rw [zero, Nat.cast_zero, zero_mul, div_eq_zero_iff] at units
    rcases units with none | none
    · exact hnum (by exact_mod_cast none)
    · exact hden.ne' (by exact_mod_cast none)
  rw [roundDiv_units hden units, units]
  by_cases full : m * 2 ^ k = 2 ^ (fractionBits + 1)
  · -- The units are smaller than those of the number, so there is room for one more.
    have finer : k ≠ 0 := by
      rintro rfl
      rw [Nat.pow_zero, Nat.mul_one] at full
      exact short.ne full
    have carry : ((2 ^ (fractionBits + 1) : Nat) : ℚ) * 2 ^ u = (2 ^ fractionBits : Nat) * 2 ^ (u + 1) := by
      rw [zpow_add_one₀ (two_ne_zero' ℚ), Nat.pow_succ]
      push_cast
      ring
    rw [if_pos full]
    dsimp only
    rw [if_neg (by omega), if_neg (by decide), full, carry]
    exact standsFor_finite negative _ _
  · rw [if_neg full]
    dsimp only
    rw [if_neg (by omega), if_neg nonzero]
    exact standsFor_finite negative _ _

theorem standsFor_ofScaled {m : Nat} {e : Int} (exact : Representable (m * 2 ^ e)) :
    (ofScaled negative m e).StandsFor (if negative then -((m : ℚ) * 2 ^ e) else m * 2 ^ e) := by
  have value : ((m * scaleUp e : Nat) : ℚ) / scaleUp (-e) = m * 2 ^ e := by
    rw [Nat.cast_mul, mul_div_assoc, scaleUp_div_scaleUp_neg]
  have stands := standsFor_ofRatio negative (scaleUp_pos (-e)) (value.symm ▸ exact)
  rwa [value] at stands

/-! ## Integers and sums -/

/-- An integer in units of a power of two, with its sign taken off and put on again. -/
theorem ofScaled_natAbs_standsFor {n e : Int} (exact : Representable (n * 2 ^ e)) :
    (ofScaled (decide (n < 0)) n.natAbs e).StandsFor (n * 2 ^ e) := by
  have size : ((n.natAbs : Nat) : ℚ) = |(n : ℚ)| := by rw [Nat.cast_natAbs, Int.cast_abs]
  have same : Representable ((n.natAbs : ℚ) * 2 ^ e) := by
    obtain ⟨m, f, short, low, high, value⟩ := exact
    refine ⟨m, f, short, low, high, ?_⟩
    rw [size, abs_mul, abs_abs, ← abs_mul, value]
  have stands := standsFor_ofScaled (decide (n < 0)) same
  rw [size] at stands
  rcases lt_or_ge n 0 with negative | nonneg
  · rwa [decide_eq_true negative, if_pos rfl, abs_of_neg (by exact_mod_cast negative), neg_mul, neg_neg,
      ← decide_eq_true negative] at stands
  · rwa [decide_eq_false nonneg.not_gt, if_neg Bool.false_ne_true, abs_of_nonneg (by exact_mod_cast nonneg),
      ← decide_eq_false nonneg.not_gt] at stands

theorem standsFor_ofInt {n : Int} (exact : Representable n) : (ofInt n).StandsFor n := by
  have unit : (n : ℚ) * 2 ^ (0 : Int) = n := by rw [zpow_zero, mul_one]
  have stands := ofScaled_natAbs_standsFor (unit.symm ▸ exact)
  rwa [unit] at stands

/-- A sum that binary64 has is exact. -/
theorem standsFor_add {a b : Binary64} {v w : ℚ} (left : a.StandsFor v) (right : b.StandsFor w)
    (exact : Representable (v + w)) : (a.add b).StandsFor (v + w) := by
  obtain ⟨finiteLeft, rfl⟩ := left
  obtain ⟨finiteRight, rfl⟩ := right
  cases a with
  | infinite | nan => cases finiteLeft
  | finite na ma ea =>
    cases b with
    | infinite | nan => cases finiteRight
    | finite nb mb eb =>
      rw [toRat_finite_eq (min_le_left ea eb), toRat_finite_eq (min_le_right ea eb), ← add_mul, ← Int.cast_add]
        at exact ⊢
      unfold add
      dsimp only
      split
      next zero =>
        rw [zero, Int.cast_zero, zero_mul]
        exact standsFor_zero _
      · exact ofScaled_natAbs_standsFor exact

theorem StandsFor.neg {x : Binary64} {v : ℚ} (stands : x.StandsFor v) : x.neg.StandsFor (-v) :=
  ⟨(isFinite_neg x).trans stands.finite, (toRat_neg x).trans (congrArg Neg.neg stands.value)⟩

theorem standsFor_sub {a b : Binary64} {v w : ℚ} (left : a.StandsFor v) (right : b.StandsFor w)
    (exact : Representable (v - w)) : (a.sub b).StandsFor (v - w) := by
  rw [sub_eq_add_neg] at exact ⊢
  exact standsFor_add left right.neg exact

/-- A number of at most 53 bits in units within the range. -/
theorem representable_of_units {n : Int} {e : Int} (short : n.natAbs < 2 ^ 53) (low : minExponent ≤ e)
    (high : e ≤ maxExponent) : Representable (n * 2 ^ e) := by
  refine ⟨n.natAbs, e, short, low, high, ?_⟩
  rw [abs_mul, abs_of_pos (zpow_pos (zero_lt_two' ℚ) e), Nat.cast_natAbs, Int.cast_abs]

/-- Integers of up to 53 bits are among the numbers that binary64 has. -/
theorem representable_intCast {n : Int} (short : n.natAbs < 2 ^ 53) : Representable n := by
  have units := @representable_of_units n 0 short (by decide) (by decide)
  rwa [zpow_zero, mul_one] at units

end WordMachine.Numeric.Binary64
