import Mathlib
import WordMachine.Word

/-!
# The value of a binary64 number

A finite number is read as the rational it stands for. Comparison is comparison of these rationals, also between an
integer and a real, and the stored form of a real depends on its rational alone: a significand may be written with any
power of two taken out of its exponent.
-/
namespace WordMachine.Numeric

/-- A common factor of both terms does not change the rounded quotient. -/
theorem roundDiv_mul_right (num den : Nat) {c : Nat} (hc : 0 < c) :
    roundDiv (num * c) (den * c) = roundDiv num den := by
  unfold roundDiv
  simp only [Nat.mul_div_mul_right num den hc, Nat.mul_mod_mul_right]
  have below : 2 * (num % den * c) < den * c ↔ 2 * (num % den) < den := by
    rw [← Nat.mul_assoc]
    exact Nat.mul_lt_mul_right hc
  have above : den * c < 2 * (num % den * c) ↔ den < 2 * (num % den) := by
    rw [← Nat.mul_assoc]
    exact Nat.mul_lt_mul_right hc
  simp only [below, above]

namespace Binary64

def toRat : Binary64 → ℚ
  | .finite negative m e => signed negative m * 2 ^ e
  | .infinite _ | .nan => 0

theorem cast_scaleUp {e : Int} (he : 0 ≤ e) : (scaleUp e : ℚ) = 2 ^ e := by
  obtain ⟨k, rfl⟩ := Int.eq_ofNat_of_zero_le he
  simp [scaleUp]

/-- The value over a smaller exponent, where the significand is an integer. -/
theorem toRat_finite_eq {negative : Bool} {m : Nat} {e f : Int} (hf : f ≤ e) :
    (finite negative m e).toRat = ((signed negative m * scaleUp (e - f) : Int) : ℚ) * 2 ^ f := by
  have split : (2 : ℚ) ^ e = 2 ^ (e - f) * 2 ^ f := by
    rw [← zpow_add₀ (by norm_num)]
    congr 1
    omega
  simp only [toRat, Int.cast_mul, Int.cast_natCast, cast_scaleUp (Int.sub_nonneg.mpr hf), split]
  ring

/-- Finite numbers are compared by their rationals. -/
theorem compare?_eq_cmp {a b : Binary64} (ha : a.isFinite = true) (hb : b.isFinite = true) :
    a.compare? b = some (cmp a.toRat b.toRat) := by
  cases a with
  | infinite | nan => cases ha
  | finite na ma ea =>
    cases b with
    | infinite | nan => cases hb
    | finite nb mb eb =>
      have monotone : StrictMono fun n : Int => (n : ℚ) * 2 ^ min ea eb := fun x y hxy =>
        mul_lt_mul_of_pos_right (Int.cast_lt.mpr hxy) (zpow_pos (by norm_num) _)
      rw [toRat_finite_eq (min_le_left ea eb), toRat_finite_eq (min_le_right ea eb),
        monotone.cmp_map_eq]
      simp only [compare?, cmp_eq_compare]

theorem sameValue_iff {a b : Binary64} (ha : a.isFinite = true) (hb : b.isFinite = true) :
    a.sameValue b = true ↔ a.toRat = b.toRat := by
  simp [sameValue, compare?_eq_cmp ha hb, cmp_eq_eq_iff]

theorem toRat_eq_zero_iff (negative : Bool) (m : Nat) (e : Int) :
    (finite negative m e).toRat = 0 ↔ m = 0 := by
  have power : (2 : ℚ) ^ e ≠ 0 := zpow_ne_zero _ (by norm_num)
  cases negative <;> simp [toRat, signed, power]

/-- Two finite numbers of one value, not zero, have one sign and one magnitude. -/
theorem magnitude_eq_of_toRat_eq {na nb : Bool} {ma mb : Nat} {ea eb : Int} (hm : ma ≠ 0)
    (same : (finite na ma ea).toRat = (finite nb mb eb).toRat) :
    na = nb ∧ (ma : ℚ) * 2 ^ ea = mb * 2 ^ eb := by
  have left : 0 < (ma : ℚ) * 2 ^ ea :=
    mul_pos (by exact_mod_cast Nat.pos_of_ne_zero hm) (zpow_pos (by norm_num) _)
  have right : 0 ≤ (mb : ℚ) * 2 ^ eb := mul_nonneg (Nat.cast_nonneg _) (zpow_nonneg (by norm_num) _)
  cases na <;> cases nb <;> simp only [toRat, signed, if_true, Bool.false_eq_true, if_false,
    Int.cast_neg, Int.cast_natCast, neg_mul, neg_inj] at same
  · exact ⟨rfl, same⟩
  · linarith
  · linarith
  · exact ⟨rfl, same⟩

/-- An integer written as a binary64 number, of any number of digits, has its own value. -/
theorem toRat_integer (n : Int) : (finite (decide (n < 0)) n.natAbs 0).toRat = n := by
  have signed : signed (decide (n < 0)) n.natAbs = n := by
    unfold signed
    split
    next negative =>
      have below : n < 0 := of_decide_eq_true negative
      omega
    next positive =>
      have above : ¬ n < 0 := fun below => positive (decide_eq_true below)
      omega
  rw [toRat, signed, zpow_zero, mul_one]

end Binary64

namespace Number

def toRat : Number → ℚ
  | .integer n => n
  | .real x => x.toRat

/-- Integers are finite, and reals may be. -/
def IsFinite : Number → Prop
  | .integer _ => True
  | .real x => x.isFinite = true

/-- Finite numbers, integers and reals in any mixture, are compared by their rationals. -/
theorem compare?_eq_cmp {a b : Number} (ha : a.IsFinite) (hb : b.IsFinite) :
    a.compare? b = some (cmp a.toRat b.toRat) := by
  cases a with
  | integer n =>
    cases b with
    | integer k => simp only [compare?, toRat, Int.cast_strictMono.cmp_map_eq, cmp_eq_compare]
    | real y => rw [compare?, Binary64.compare?_eq_cmp rfl hb, Binary64.toRat_integer, toRat, toRat]
  | real x =>
    cases b with
    | integer k => rw [compare?, Binary64.compare?_eq_cmp ha rfl, Binary64.toRat_integer, toRat, toRat]
    | real y => exact Binary64.compare?_eq_cmp ha hb

end Number

end WordMachine.Numeric

namespace WordMachine.StoredReal

open Numeric

/-- Every pattern of bits stands for a finite number. -/
theorem isFinite_decode (bits : BitVec 24) : (decode bits).isFinite = true := by
  unfold decode
  dsimp only
  split <;> rfl

/-- A power of two may move from the significand into the exponent. -/
theorem normalise_mul_two_pow {m : Nat} (hm : m ≠ 0) (k : Nat) (e : Int) :
    normalise (m * 2 ^ k) e = normalise m (e + k) := by
  have leading : (m * 2 ^ k).log2 = m.log2 + k := by
    rw [Nat.log2_eq_iff (Nat.mul_ne_zero hm (by positivity))]
    have low := Nat.log2_self_le hm
    have high : m < 2 ^ (m.log2 + 1) := Nat.lt_log2_self
    constructor
    · rw [Nat.pow_add]
      exact Nat.mul_le_mul_right _ low
    · rw [show m.log2 + k + 1 = m.log2 + 1 + k by omega, Nat.pow_add]
      exact Nat.mul_lt_mul_of_pos_right high (by positivity)
  have fraction : roundDiv ((m * 2 ^ k - 2 ^ (m.log2 + k)) * 2 ^ fractionBits) (2 ^ (m.log2 + k)) =
      roundDiv ((m - 2 ^ m.log2) * 2 ^ fractionBits) (2 ^ m.log2) := by
    rw [Nat.pow_add, ← Nat.sub_mul, Nat.mul_right_comm]
    exact roundDiv_mul_right _ _ (by positivity)
  unfold normalise
  simp only [leading, fraction]
  split <;> simp only [Nat.cast_add, Prod.mk.injEq, and_true] <;> ring

/-- Exponent and fraction depend only on the magnitude. -/
theorem normalise_eq_of_magnitude_eq {m n : Nat} {e f : Int} (hm : m ≠ 0) (hn : n ≠ 0)
    (same : (m : ℚ) * 2 ^ e = n * 2 ^ f) : normalise m e = normalise n f := by
  wlog order : e ≤ f generalizing m n e f
  · exact (this hn hm same.symm (by omega)).symm
  · obtain ⟨k, rfl⟩ : ∃ k : Nat, f = e + k := ⟨(f - e).toNat, by omega⟩
    have power : (2 : ℚ) ^ e ≠ 0 := zpow_ne_zero _ (by norm_num)
    have significand : m = n * 2 ^ k := by
      rw [zpow_add₀ (by norm_num), zpow_natCast, mul_left_comm, mul_comm ((2 : ℚ) ^ e)] at same
      exact_mod_cast mul_right_cancel₀ power same
    rw [significand, normalise_mul_two_pow hn]

/-- The stored form of a number that is not zero, in terms of its exponent and fraction. -/
theorem encode_of_normalise {m fraction : Nat} {e exponent : Int} (negative : Bool) (hm : m ≠ 0)
    (normal : normalise m e = (exponent, fraction)) :
    encode (.finite negative m e) =
      if maxField < exponent + bias then .error (.realTooLarge (.finite negative m e))
      else if exponent + bias < 1 then .ok 0
      else .ok (.ofNat 24 (negative.toNat * 2 ^ 23 + (exponent + bias).toNat * 2 ^ fractionBits +
        fraction)) := by
  rw [encode, if_neg hm, normal]

/-- A real without a stored form is not finite or too large. -/
theorem unstorable_or_tooLarge {x : Binary64} {e : WordError} (refused : encode x = .error e) :
    e = .unstorable x ∨ e = .realTooLarge x := by
  cases x with
  | infinite | nan =>
    cases refused
    exact Or.inl rfl
  | finite negative m e =>
    refine Or.inr ?_
    by_cases hm : m = 0
    · rw [encode, if_pos hm] at refused
      cases refused
    · cases normal : normalise m e with
      | mk exponent fraction =>
        rw [encode_of_normalise negative hm normal] at refused
        split at refused
        · cases refused
          rfl
        · split at refused <;> cases refused

/-- Numbers of one value have one stored form. -/
theorem encode_of_toRat_eq {x y : Binary64} {bits : BitVec 24} (hy : y.isFinite = true)
    (same : x.toRat = y.toRat) (stored : encode x = .ok bits) : encode y = .ok bits := by
  cases x with
  | infinite | nan => cases stored
  | finite na ma ea =>
    cases y with
    | infinite | nan => cases hy
    | finite nb mb eb =>
      by_cases hm : ma = 0
      · have zero : mb = 0 := by
          rw [← Binary64.toRat_eq_zero_iff nb mb eb, ← same, Binary64.toRat_eq_zero_iff]
          exact hm
        rw [encode, if_pos hm] at stored
        rw [encode, if_pos zero]
        exact stored
      · obtain ⟨rfl, magnitude⟩ := Binary64.magnitude_eq_of_toRat_eq hm same
        have hn : mb ≠ 0 := by
          rw [Ne, ← Binary64.toRat_eq_zero_iff na mb eb, ← same, Binary64.toRat_eq_zero_iff]
          exact hm
        cases normal : normalise mb eb with
        | mk exponent fraction =>
          have normal' := (normalise_eq_of_magnitude_eq hm hn magnitude).trans normal
          rw [encode_of_normalise na hm normal'] at stored
          rw [encode_of_normalise na hn normal]
          split at stored
          · cases stored
          next fits =>
            rw [if_neg fits]
            exact stored

end WordMachine.StoredReal
