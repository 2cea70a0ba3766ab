import Mathlib
import WordMachine.Proofs.Numeric.Value

/-!
# The storable magnitudes

A magnitude with sixteen bits of fraction after its leading one has an index: the fraction, and above it the exponent.
Magnitudes grow with their indices, from one power of two to the next as within one, so a fraction that is rounded up
to one is carried into the exponent by adding one to the index.

A positive number is rounded to the nearest magnitude, and to the one of even index if two are nearest (`Nearest`).
There is at most one such index, and it grows with the number.
-/
namespace WordMachine.StoredReal

def magnitude (exponent : Int) (fraction : Nat) : ℚ :=
  (1 + fraction / 2 ^ 16) * 2 ^ exponent

def grid (index : Int) : ℚ :=
  magnitude (index / 2 ^ 16) (index % 2 ^ 16).toNat

/-- A power of two in units of a smaller one. -/
theorem zpow_eq_units (exponent : Int) (n : Nat) : (2 : ℚ) ^ exponent = 2 ^ n * 2 ^ (exponent - n) := by
  rw [← zpow_natCast, ← zpow_add₀ (two_ne_zero' ℚ), add_sub_cancel]

theorem magnitude_pos (exponent : Int) (fraction : Nat) : 0 < magnitude exponent fraction := by
  unfold magnitude
  positivity

theorem grid_pos (index : Int) : 0 < grid index :=
  magnitude_pos _ _

/-- A fraction that is all of one belongs to the next exponent. -/
theorem magnitude_carry (exponent : Int) : magnitude exponent (2 ^ 16) = magnitude (exponent + 1) 0 := by
  simp only [magnitude, zpow_add_one₀ (two_ne_zero' ℚ)]
  norm_num
  ring

/-- Exponent and fraction are the digits of an index. -/
theorem magnitude_eq_grid (exponent : Int) {fraction : Nat} (bound : fraction ≤ 2 ^ 16) :
    magnitude exponent fraction = grid (exponent * 2 ^ 16 + fraction) := by
  have below {e : Int} {f : Nat} (inside : f < 2 ^ 16) : magnitude e f = grid (e * 2 ^ 16 + f) := by
    have quotient : (e * 2 ^ 16 + f) / 2 ^ 16 = e := by omega
    have remainder : ((e * 2 ^ 16 + f) % 2 ^ 16).toNat = f := by omega
    rw [grid, quotient, remainder]
  rcases Nat.lt_or_eq_of_le bound with inside | rfl
  · exact below inside
  · rw [magnitude_carry, below (by norm_num)]
    congr 1
    push_cast
    ring

/-- A magnitude in units of its last place. -/
theorem magnitude_eq_units (exponent : Int) (fraction : Nat) :
    magnitude exponent fraction = (2 ^ 16 + fraction) * 2 ^ (exponent - 16) := by
  rw [magnitude, zpow_eq_units exponent 16, Nat.cast_ofNat]
  ring

theorem grid_eq_units (exponent : Int) {fraction : Nat} (bound : fraction ≤ 2 ^ 16) :
    grid (exponent * 2 ^ 16 + fraction) = (2 ^ 16 + fraction) * 2 ^ (exponent - 16) := by
  rw [← magnitude_eq_grid exponent bound, magnitude_eq_units]

theorem exists_index_eq (index : Int) :
    ∃ exponent, ∃ fraction : Nat, fraction < 2 ^ 16 ∧ index = exponent * 2 ^ 16 + fraction :=
  ⟨index / 2 ^ 16, (index % 2 ^ 16).toNat, by omega, by omega⟩

/-- An index is even if its fraction is. -/
theorem even_index_iff (exponent : Int) (fraction : Nat) :
    Even (exponent * 2 ^ 16 + (fraction : Int)) ↔ Even fraction := by
  have multiple : Even (exponent * 2 ^ 16) := ⟨exponent * 2 ^ 15, by ring⟩
  rw [Int.even_add, Int.even_coe_nat, iff_true_left multiple]

/-- The distance from a magnitude to the next one is a unit of its last place. -/
theorem grid_succ (exponent : Int) {fraction : Nat} (inside : fraction < 2 ^ 16) :
    grid (exponent * 2 ^ 16 + fraction + 1) = grid (exponent * 2 ^ 16 + fraction) + 2 ^ (exponent - 16) := by
  have next := grid_eq_units exponent (show fraction + 1 ≤ 2 ^ 16 from inside)
  rw [Nat.cast_add_one, ← add_assoc] at next
  rw [next, grid_eq_units exponent inside.le]
  push_cast
  ring

/-- The magnitude before is a unit lower, and half a unit before a power of two. -/
theorem grid_sub_one (exponent : Int) {fraction : Nat} (bound : fraction ≤ 2 ^ 16) :
    (1 ≤ fraction ∧ grid (exponent * 2 ^ 16 + fraction - 1) =
      grid (exponent * 2 ^ 16 + fraction) - 2 ^ (exponent - 16)) ∨
    (fraction = 0 ∧ grid (exponent * 2 ^ 16 + fraction - 1) =
      grid (exponent * 2 ^ 16 + fraction) - 2 ^ (exponent - 16) / 2) := by
  cases fraction with
  | zero =>
    have step := grid_succ (exponent - 1) (show 2 ^ 16 - 1 < 2 ^ 16 by norm_num)
    have last : (exponent - 1) * 2 ^ 16 + ((2 ^ 16 - 1 : Nat) : Int) = exponent * 2 ^ 16 + (0 : Nat) - 1 := by
      push_cast
      ring
    have half : (2 : ℚ) ^ (exponent - 1 - 16) = 2 ^ (exponent - 16) / 2 := by
      rw [sub_right_comm, zpow_sub_one₀ (two_ne_zero' ℚ), div_eq_mul_inv]
    rw [last, sub_add_cancel, half] at step
    exact Or.inr ⟨rfl, eq_sub_of_add_eq step.symm⟩
  | succ before =>
    have step := grid_succ exponent (show before < 2 ^ 16 from bound)
    rw [Nat.cast_add_one, ← add_assoc, add_sub_cancel_right, step]
    exact Or.inl ⟨Nat.le_add_left 1 before, (add_sub_cancel_right _ _).symm⟩

/-- The next index is the next magnitude. -/
theorem grid_strictMono : StrictMono grid := by
  refine strictMono_int_of_lt_succ fun index => ?_
  obtain ⟨exponent, fraction, inside, rfl⟩ := exists_index_eq index
  rw [grid_succ exponent inside]
  exact lt_add_of_pos_right _ (by positivity)

/-- The index of the magnitude nearest to a number, the even one of two that are equally near. -/
structure Nearest (a : ℚ) (index : Int) : Prop where
  closest : ∀ other, |grid index - a| ≤ |grid other - a|
  even : ∀ other, other ≠ index → |grid other - a| = |grid index - a| → Even index

section

variable {a b low high : ℚ} {i j k : Int}

/-! ## Middles -/

/-- The higher of two points is not farther away from their middle on, and the lower one up to it. -/
theorem abs_sub_le_iff_middle (order : low < high) :
    (|high - a| ≤ |low - a| ↔ low + high ≤ 2 * a) ∧ (|low - a| ≤ |high - a| ↔ 2 * a ≤ low + high) := by
  have apart : 0 < high - low := sub_pos.mpr order
  have above : (low - a) ^ 2 - (high - a) ^ 2 = (2 * a - (low + high)) * (high - low) := by ring
  have below : (high - a) ^ 2 - (low - a) ^ 2 = (low + high - 2 * a) * (high - low) := by ring
  constructor
  · rw [← sq_le_sq, ← sub_nonneg, above, mul_nonneg_iff_of_pos_right apart, sub_nonneg]
  · rw [← sq_le_sq, ← sub_nonneg, below, mul_nonneg_iff_of_pos_right apart, sub_nonneg]

theorem Nearest.middle_le (nearest : Nearest a k) (below : j < k) : grid j + grid k ≤ 2 * a :=
  (abs_sub_le_iff_middle (grid_strictMono below)).1.mp (nearest.closest j)

theorem Nearest.le_middle (nearest : Nearest a k) (above : k < j) : 2 * a ≤ grid k + grid j :=
  (abs_sub_le_iff_middle (grid_strictMono above)).2.mp (nearest.closest j)

theorem Nearest.pos (nearest : Nearest a k) : 0 < a := by
  have middle := nearest.middle_le (show k - 1 < k by omega)
  linarith [grid_pos (k - 1), grid_pos k]

theorem Nearest.even_of_middle (nearest : Nearest a k) (apart : j ≠ k) (middle : 2 * a = grid k + grid j) : Even k := by
  refine nearest.even j apart (le_antisymm ?_ (nearest.closest j))
  rcases lt_or_gt_of_ne apart with below | above
  · exact (abs_sub_le_iff_middle (grid_strictMono below)).2.mpr (by linarith)
  · exact (abs_sub_le_iff_middle (grid_strictMono above)).1.mpr (by linarith)

/-- Whether an index is the nearest is decided by its neighbours. -/
theorem nearest_of_neighbours (lower : grid (k - 1) + grid k ≤ 2 * a) (upper : 2 * a ≤ grid k + grid (k + 1))
    (even : grid (k - 1) + grid k = 2 * a ∨ 2 * a = grid k + grid (k + 1) → Even k) : Nearest a k := by
  have below {j : Int} (order : j < k) : grid j ≤ grid (k - 1) := grid_strictMono.monotone (by omega)
  have above {j : Int} (order : k < j) : grid (k + 1) ≤ grid j := grid_strictMono.monotone (by omega)
  constructor
  · intro j
    rcases lt_trichotomy j k with order | rfl | order
    · exact (abs_sub_le_iff_middle (grid_strictMono order)).1.mpr (by linarith [below order])
    · exact le_rfl
    · exact (abs_sub_le_iff_middle (grid_strictMono order)).2.mpr (by linarith [above order])
  · intro j apart same
    apply even
    rcases lt_or_gt_of_ne apart with order | order
    · have farther := (abs_sub_le_iff_middle (grid_strictMono order)).2.mp same.le
      exact Or.inl (le_antisymm lower (by linarith [below order]))
    · have farther := (abs_sub_le_iff_middle (grid_strictMono order)).1.mp same.le
      exact Or.inr (le_antisymm upper (by linarith [above order]))

/-! ## Nearest indices -/

theorem nearest_grid (k : Int) : Nearest (grid k) k := by
  have lower : grid (k - 1) < grid k := grid_strictMono (by omega)
  have upper : grid k < grid (k + 1) := grid_strictMono (by omega)
  refine nearest_of_neighbours (by linarith) (by linarith) fun tie => ?_
  rcases tie with same | same <;> linarith

/-- A greater number has no lower index nearest to it. -/
theorem Nearest.le_of_le (left : Nearest a i) (right : Nearest b j) (order : a ≤ b) : i ≤ j := by
  by_contra beyond
  have below : j < i := not_le.mp beyond
  have lower := left.middle_le below
  have upper := right.le_middle below
  have evenLeft : Even i := left.even_of_middle below.ne (by linarith)
  have evenRight : Even j := right.even_of_middle below.ne' (by linarith)
  -- The odd index after `j` is nearer than `i`, which is even too.
  have between : j + 1 < i := by
    obtain ⟨p, rfl⟩ := evenLeft
    obtain ⟨q, rfl⟩ := evenRight
    omega
  have nearer := right.le_middle (show j < j + 1 by omega)
  have smaller := grid_strictMono between
  linarith

/-- There is one index nearest to a number. -/
theorem Nearest.unique (left : Nearest a i) (right : Nearest a j) : i = j :=
  le_antisymm (left.le_of_le right le_rfl) (right.le_of_le left le_rfl)

/-- An even index is reached from the middle on between its magnitude and the one before. -/
theorem Nearest.le_iff_of_even (nearest : Nearest a k) (even : Even j) :
    j ≤ k ↔ grid (j - 1) + grid j ≤ 2 * a := by
  constructor
  · intro reached
    have lower := nearest.middle_le (show j - 1 < k by omega)
    have upper : grid j ≤ grid k := grid_strictMono.monotone reached
    linarith
  · intro above
    by_contra unreached
    have upper := nearest.le_middle (not_le.mp unreached)
    have lower : grid k ≤ grid (j - 1) := grid_strictMono.monotone (by omega)
    have before : k = j - 1 := grid_strictMono.injective (by linarith)
    have odd : Even k := nearest.even_of_middle (show j ≠ k by omega) (by linarith)
    rw [before, Int.even_sub_one] at odd
    exact odd even

/-- Rounding changes a number by at most a part in `2 ^ 17`. -/
theorem Nearest.error_le (nearest : Nearest a k) : |grid k - a| ≤ a / 2 ^ 17 := by
  have upper := nearest.le_middle (show k < k + 1 by omega)
  have lower := nearest.middle_le (show k - 1 < k by omega)
  obtain ⟨exponent, fraction, inside, rfl⟩ := exists_index_eq k
  have units := grid_eq_units exponent inside.le
  have before := grid_sub_one exponent inside.le
  have unit : (0 : ℚ) < 2 ^ (exponent - 16) := by positivity
  rw [grid_succ exponent inside] at upper
  generalize grid (exponent * 2 ^ 16 + fraction) = value at *
  generalize grid (exponent * 2 ^ 16 + fraction - 1) = previous at *
  generalize (2 : ℚ) ^ (exponent - 16) = u at *
  have large : 2 ^ 16 * u ≤ value := by
    rw [units]
    exact mul_le_mul_of_nonneg_right (le_add_of_nonneg_right (Nat.cast_nonneg fraction)) unit.le
  rw [abs_le]
  constructor
  · linarith
  · rcases before with ⟨one, step⟩ | ⟨-, step⟩
    · have larger : (2 ^ 16 + 1) * u ≤ value := by
        rw [units]
        exact mul_le_mul_of_nonneg_right (by exact_mod_cast Nat.add_le_add_left one (2 ^ 16)) unit.le
      linarith
    · linarith

end

end WordMachine.StoredReal
