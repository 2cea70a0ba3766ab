import WordMachine.Proofs.StoredReal.Rounding

/-!
# The order of stored reals

What a real is stored as depends on the rational it stands for alone (`encode_eq_ok_iff`). So storing keeps the order
of reals and their signs, storing what is read back changes nothing, and between the two ends of the range a real is
stored as the nearest of all reals with sixteen bits of fraction (`storing_keeps_order`).
-/
namespace WordMachine.StoredReal

open Numeric

/-- The real with a sign, an exponent and a fraction of sixteen bits. -/
def signedMagnitude (negative : Bool) (exponent : Int) (fraction : Nat) : ℚ :=
  if negative then -magnitude exponent fraction else magnitude exponent fraction

/-- No real with a fraction of sixteen bits is nearer to a number, and none as near if the fraction is odd. -/
structure NearestReal (x : ℚ) (negative : Bool) (exponent : Int) (fraction : Nat) : Prop where
  inside : fraction < 2 ^ 16
  closest : ∀ sign power rest, rest < 2 ^ 16 →
    |signedMagnitude negative exponent fraction - x| ≤ |signedMagnitude sign power rest - x|
  even : ∀ sign power rest, rest < 2 ^ 16 →
    signedMagnitude sign power rest ≠ signedMagnitude negative exponent fraction →
    |signedMagnitude sign power rest - x| = |signedMagnitude negative exponent fraction - x| → Even fraction

/-- The bits that a number is stored as. -/
inductive Stored (x : ℚ) : BitVec 24 → Prop where
  | zero : x = 0 → Stored x 0
  | flushed {index : Int} : Nearest |x| index → index < leastIndex → Stored x 0
  | rounded {index : Int} : Nearest |x| index → leastIndex ≤ index → index < indexLimit →
      Stored x (pattern (decide (x < 0)) index)

/-- The numbers that can be stored are finite, and their bits are those of their rationals. -/
theorem encode_eq_ok_iff {x : Binary64} {bits : BitVec 24} :
    encode x = .ok bits ↔ x.isFinite = true ∧ Stored x.toRat bits := by
  constructor
  · intro stored
    have finite : x.isFinite = true := by
      cases x with
      | infinite | nan => cases stored
      | finite => rfl
    refine ⟨finite, ?_⟩
    by_cases zero : x.toRat = 0
    · rw [encode_of_toRat_eq_zero finite zero] at stored
      cases stored
      exact .zero zero
    · obtain ⟨index, nearest⟩ := exists_nearest finite zero
      rw [encode_of_nearest finite nearest] at stored
      split at stored
      · cases stored
      next limit =>
        split at stored
        next tiny =>
          cases stored
          exact .flushed nearest tiny
        next least =>
          cases stored
          exact .rounded nearest (not_lt.mp least) (not_le.mp limit)
  · rintro ⟨finite, stored⟩
    cases stored with
    | zero zero => exact encode_of_toRat_eq_zero finite zero
    | flushed nearest tiny => exact encode_of_tiny finite nearest tiny
    | rounded nearest least limit => exact encode_of_inside finite nearest least limit

section

variable {x y : ℚ} {a b : BitVec 24}

/-! ## Signs -/

theorem Stored.nonneg (stored : Stored x a) (nonneg : 0 ≤ x) : 0 ≤ (decode a).toRat := by
  cases stored with
  | zero | flushed => exact toRat_decode_zero.ge
  | rounded nearest least limit =>
    rw [decide_eq_false nonneg.not_gt, toRat_decode_pattern least limit]
    exact (grid_pos _).le

/-- The number of the other sign is stored as the value of the other sign. -/
theorem Stored.neg (stored : Stored x a) : ∃ b, Stored (-x) b ∧ (decode b).toRat = -(decode a).toRat := by
  cases stored with
  | zero zero => exact ⟨0, .zero (neg_eq_zero.mpr zero), by rw [toRat_decode_zero, neg_zero]⟩
  | flushed nearest tiny =>
    exact ⟨0, .flushed ((abs_neg x).symm ▸ nearest) tiny, by rw [toRat_decode_zero, neg_zero]⟩
  | rounded nearest least limit =>
    refine ⟨_, .rounded ((abs_neg x).symm ▸ nearest) least limit, ?_⟩
    rw [toRat_decode_pattern least limit, toRat_decode_pattern least limit]
    rcases lt_or_gt_of_ne (abs_pos.mp nearest.pos) with below | above
    · simp [below, below.le]
    · simp [above, above.le]

/-! ## Order -/

/-- Of two numbers the one of the greater magnitude is stored with the greater magnitude. -/
theorem Stored.abs_le_abs (left : Stored x a) (right : Stored y b) (order : |x| ≤ |y|) :
    |(decode a).toRat| ≤ |(decode b).toRat| := by
  cases left with
  | zero | flushed =>
    rw [toRat_decode_zero, abs_zero]
    exact abs_nonneg _
  | rounded nearest least limit =>
    cases right with
    | zero zero =>
      rw [zero, abs_zero] at order
      exact absurd order (not_le.mpr nearest.pos)
    | flushed other tiny =>
      exact absurd (least.trans (nearest.le_of_le other order)) (not_le.mpr tiny)
    | rounded other reached bounded =>
      rw [abs_toRat_decode_pattern least limit, abs_toRat_decode_pattern reached bounded]
      exact grid_strictMono.monotone (nearest.le_of_le other order)

/-- Storing keeps the order. -/
theorem Stored.le_of_le (left : Stored x a) (right : Stored y b) (order : x ≤ y) :
    (decode a).toRat ≤ (decode b).toRat := by
  have nonpos {z : ℚ} {c : BitVec 24} (stored : Stored z c) (sign : z ≤ 0) : (decode c).toRat ≤ 0 := by
    obtain ⟨d, negated, value⟩ := stored.neg
    linarith [negated.nonneg (neg_nonneg.mpr sign)]
  rcases le_total 0 x with positive | negative
  · have above := positive.trans order
    have grown := left.abs_le_abs right (by rwa [abs_of_nonneg positive, abs_of_nonneg above])
    rwa [abs_of_nonneg (left.nonneg positive), abs_of_nonneg (right.nonneg above)] at grown
  · rcases le_total 0 y with positive | below
    · exact (nonpos left negative).trans (right.nonneg positive)
    · have shrunk := right.abs_le_abs left (by
        rw [abs_of_nonpos below, abs_of_nonpos negative]
        exact neg_le_neg order)
      rw [abs_of_nonpos (nonpos right below), abs_of_nonpos (nonpos left negative)] at shrunk
      exact neg_le_neg_iff.mp shrunk

/-- What is read back is stored as it was. -/
theorem Stored.decode (stored : Stored x a) : Stored (decode a).toRat a := by
  cases stored with
  | zero | flushed => exact .zero toRat_decode_zero
  | @rounded index nearest least limit =>
    have positive := grid_pos index
    have value := @toRat_decode_pattern (decide (x < 0)) index least limit
    have magnitude := @abs_toRat_decode_pattern (decide (x < 0)) index least limit
    have sign : decide ((StoredReal.decode (pattern (decide (x < 0)) index)).toRat < 0) = decide (x < 0) := by
      rw [value]
      split
      next below => rw [below, decide_eq_true (neg_neg_of_pos positive)]
      next above => rw [decide_eq_false positive.not_gt, Bool.eq_false_iff.mpr above]
    have again := Stored.rounded (magnitude.symm ▸ nearest_grid index) least limit
    rwa [sign] at again

/-! ## Nearest reals -/

/-- With its sign, the nearest magnitude is the nearest real. -/
theorem Nearest.nearestReal {exponent : Int} {fraction : Nat} (inside : fraction < 2 ^ 16)
    (nearest : Nearest |x| (exponent * 2 ^ 16 + fraction)) :
    NearestReal x (decide (x < 0)) exponent fraction := by
  have value : magnitude exponent fraction = grid (exponent * 2 ^ 16 + fraction) := magnitude_eq_grid exponent inside.le
  have distance : |signedMagnitude (decide (x < 0)) exponent fraction - x| = |magnitude exponent fraction - abs x| :=
    abs_signed_sub _ x
  have farther (sign : Bool) (power : Int) (rest : Nat) :
      |magnitude power rest - abs x| ≤ |signedMagnitude sign power rest - x| := by
    have size : |signedMagnitude sign power rest| = magnitude power rest := by
      unfold signedMagnitude
      cases sign <;> simp [abs_of_pos (magnitude_pos power rest)]
    rw [← size]
    exact abs_abs_sub_abs_le _ x
  refine ⟨inside, fun sign power rest bound => ?_, fun sign power rest bound apart tie => ?_⟩
  · calc |signedMagnitude (decide (x < 0)) exponent fraction - x|
        = |grid (exponent * 2 ^ 16 + fraction) - abs x| := by rw [distance, value]
      _ ≤ |grid (power * 2 ^ 16 + rest) - abs x| := nearest.closest _
      _ = |magnitude power rest - abs x| := by rw [magnitude_eq_grid power bound.le]
      _ ≤ |signedMagnitude sign power rest - x| := farther sign power rest
  · have same : |grid (power * 2 ^ 16 + rest) - abs x| = |grid (exponent * 2 ^ 16 + fraction) - abs x| := by
      refine le_antisymm ?_ (nearest.closest _)
      rw [← magnitude_eq_grid power bound.le, ← value, ← distance, ← tie]
      exact farther sign power rest
    by_cases index : power * 2 ^ 16 + (rest : Int) = exponent * 2 ^ 16 + fraction
    · -- Only the sign is another one, and a number that is not zero is nearer to one of the two.
      have opposite : signedMagnitude sign power rest = -signedMagnitude (decide (x < 0)) exponent fraction := by
        have size : magnitude power rest = magnitude exponent fraction := by
          rw [magnitude_eq_grid power bound.le, index, value]
        revert apart
        unfold signedMagnitude
        rw [size]
        cases sign <;> cases decide (x < 0) <;> simp
      have positive : signedMagnitude (decide (x < 0)) exponent fraction ≠ 0 := by
        unfold signedMagnitude
        split
        · exact neg_ne_zero.mpr (magnitude_pos exponent fraction).ne'
        · exact (magnitude_pos exponent fraction).ne'
      rw [opposite, ← sq_eq_sq_iff_abs_eq_abs] at tie
      have product : signedMagnitude (decide (x < 0)) exponent fraction * x = 0 := by linarith
      exact absurd ((mul_eq_zero.mp product).resolve_left positive) (abs_pos.mp nearest.pos)
    · exact (even_index_iff exponent fraction).mp (nearest.even _ index same)

end

/-- Between the ends of the range a number is stored as the nearest real. -/
theorem encode_nearestReal {x : Binary64} (finite : x.isFinite = true) (least : 2 ^ (-62 : Int) ≤ |x.toRat|)
    (limit : |x.toRat| < (2 - 1 / 2 ^ 17) * 2 ^ 64) :
    ∃ bits negative exponent fraction, encode x = .ok bits ∧
      (decode bits).toRat = signedMagnitude negative exponent fraction ∧
      NearestReal x.toRat negative exponent fraction := by
  have lower : (1 - 1 / 2 ^ 18) * 2 ^ (-62 : Int) ≤ |x.toRat| :=
    (mul_le_of_le_one_left (by positivity) (by norm_num)).trans least
  have upper : |x.toRat| < (1 - 1 / 2 ^ 18) * 2 ^ (65 : Int) := limit.trans_eq (by norm_num)
  obtain ⟨index, nearest, reached, bounded⟩ := exists_inside finite lower upper
  obtain ⟨exponent, fraction, inside, rfl⟩ := exists_index_eq index
  refine ⟨_, decide (x.toRat < 0), exponent, fraction, encode_eq_ok_iff.mpr ⟨finite, .rounded nearest reached bounded⟩,
    ?_, nearest.nearestReal inside⟩
  rw [toRat_decode_pattern reached bounded, signedMagnitude, magnitude_eq_grid exponent inside.le]

/-- Storing keeps the order of reals and their signs, does nothing more to what is read back, and rounds to the
nearest real, to the even fraction if two are nearest. -/
theorem storing_keeps_order (x y : Binary64) :
    (∀ a b, encode x = .ok a → encode y = .ok b → x.toRat ≤ y.toRat → (decode a).toRat ≤ (decode b).toRat) ∧
    (∀ a, encode x = .ok a → encode (decode a) = .ok a) ∧
    ((∃ a, encode x = .ok a) ↔ ∃ b, encode x.neg = .ok b) ∧
    (∀ a b, encode x = .ok a → encode x.neg = .ok b → (decode b).toRat = -(decode a).toRat) ∧
    (x.isFinite = true → 2 ^ (-62 : Int) ≤ |x.toRat| → |x.toRat| < (2 - 1 / 2 ^ 17) * 2 ^ 64 →
      ∃ bits negative exponent fraction, encode x = .ok bits ∧
        (decode bits).toRat = signedMagnitude negative exponent fraction ∧
        NearestReal x.toRat negative exponent fraction) := by
  have negated {z : Binary64} {a : BitVec 24} (stored : encode z = .ok a) :
      ∃ b, encode z.neg = .ok b ∧ (decode b).toRat = -(decode a).toRat := by
    obtain ⟨finite, bits⟩ := encode_eq_ok_iff.mp stored
    obtain ⟨b, opposite, value⟩ := bits.neg
    refine ⟨b, encode_eq_ok_iff.mpr ⟨(Binary64.isFinite_neg z).trans finite, ?_⟩, value⟩
    rwa [Binary64.toRat_neg]
  refine ⟨fun a b left right => ?_, fun a stored => ?_, ⟨?_, ?_⟩, fun a b stored opposite => ?_, encode_nearestReal⟩
  · exact (encode_eq_ok_iff.mp left).2.le_of_le (encode_eq_ok_iff.mp right).2
  · exact encode_eq_ok_iff.mpr ⟨isFinite_decode a, (encode_eq_ok_iff.mp stored).2.decode⟩
  · rintro ⟨a, stored⟩
    obtain ⟨b, opposite, -⟩ := negated stored
    exact ⟨b, opposite⟩
  · rintro ⟨b, stored⟩
    obtain ⟨a, opposite, -⟩ := negated stored
    have same : x.neg.neg = x := by cases x <;> simp [Binary64.neg]
    exact ⟨a, same ▸ opposite⟩
  · obtain ⟨c, found, value⟩ := negated stored
    cases opposite.symm.trans found
    exact value

/-- A number half way between two and the real before it is stored as two. -/
theorem storing_below_two :
    let x : Binary64 := .finite false (2 ^ 18 - 1) (-17)
    encode x = .ok 0x400000 ∧ encode (.finite false 3 0) = .ok 0x408000 ∧ encode x.neg = .ok 0xc00000 ∧
      (decode 0x400000).toRat ≤ (decode 0x408000).toRat ∧ encode (decode 0x400000) = .ok 0x400000 ∧
      (decode 0xc00000).toRat = -(decode 0x400000).toRat ∧
      ∃ bits negative exponent fraction, encode x = .ok bits ∧
        (decode bits).toRat = signedMagnitude negative exponent fraction ∧
        NearestReal x.toRat negative exponent fraction := by
  intro x
  obtain ⟨monotone, again, -, negated, nearest⟩ := storing_keeps_order x (.finite false 3 0)
  have left : encode x = .ok 0x400000 := by decide +kernel
  have right : encode (.finite false 3 0) = .ok 0x408000 := by decide +kernel
  have opposite : encode x.neg = .ok 0xc00000 := by decide +kernel
  have value : x.toRat = (2 ^ 18 - 1) * 2 ^ (-17 : Int) := by
    rw [Binary64.toRat_finite]
    norm_num
  have three : (Binary64.finite false 3 0).toRat = 3 := by simp [Binary64.toRat_finite]
  refine ⟨left, right, opposite, monotone _ _ left right ?_, again _ left, negated _ _ left opposite, nearest rfl ?_ ?_⟩
  · rw [value, three]
    norm_num
  · rw [value]
    norm_num
  · rw [value]
    norm_num

end WordMachine.StoredReal
