import WordMachine.Proofs.Address
import WordMachine.Proofs.Machine.Reachable
import WordMachine.Proofs.Results

/-!
# What operations give

An operation gives a result with a property, or fails for one of the reasons that it has (`Gives`); a chain of
operations is specified through the specifications of its parts (`Gives.bind`). The numbers that words hold stay
small under all arithmetic, far from the length at which an integer can no longer be written.
-/
namespace WordMachine

open Numeric

namespace Machine

/-- The result has the property, and the operation fails only for such reasons. -/
def Gives {α : Type} (property : α → Prop) (reason : FaultCause → Prop) : Except FaultCause α → Prop
  | .ok a => property a
  | .error cause => reason cause

section

variable {α β : Type} {P : α → Prop} {Q : β → Prop} {reason : FaultCause → Prop}

/-- What the first operation gives is what the second one can rely on. -/
theorem Gives.bind {x : Except FaultCause α} {f : α → Except FaultCause β} (first : Gives P reason x)
    (next : ∀ a, x = .ok a → P a → Gives Q reason (f a)) : Gives Q reason (x >>= f) := by
  cases x with
  | error cause => exact first
  | ok a => exact next a rfl first

theorem Gives.map {x : Except FaultCause α} {f : α → β} (first : Gives P reason x)
    (next : ∀ a, P a → Q (f a)) : Gives Q reason (f <$> x) := by
  cases x with
  | error cause => exact first
  | ok a => exact next a first

/-- What gives something gives anything wider. -/
theorem Gives.weaken {x : Except FaultCause α} {R : α → Prop} (first : Gives P reason x)
    (weaker : ∀ a, P a → R a) : Gives R reason x := by
  cases x with
  | error cause => exact first
  | ok a => exact weaker a first

end

theorem accumulator_inside (m : Machine) (n : Fin 8) : n.val < m.memory.size :=
  Nat.lt_of_lt_of_le n.isLt m.memory.holds_accumulators

/-- An accumulator holds the word that it is set to. -/
theorem accumulator_complete (m : Machine) (name : String) (n : Fin 8) (w : Word) :
    (m.complete name (m.setAccumulator n w)).memory.accumulator n = w :=
  Memory.get_set_self (accumulator_inside m n) w

/-! ## Numbers -/

/-- A number that some word holds. -/
inductive Held : Number → Prop where
  | integer {n : Int} (fits : Word.fits n) : Held (.integer n)
  | real (bits : BitVec 24) : Held (.real (StoredReal.decode bits))

def Small : Number → Prop
  | .integer n => n.natAbs < 10 ^ 100
  | .real _ => True

theorem held_of_number {w : Word} {value : Number} (holds : w.number = .ok value) : Held value := by
  obtain ⟨tag, bits⟩ := w
  cases tag with
  | integer =>
    cases holds
    exact .integer (Word.fits_toInt bits)
  | real =>
    cases holds
    exact .real bits
  | text | instruction => cases holds

theorem natAbs_signed (negative : Bool) (m : Nat) : (Binary64.signed negative m).natAbs = m := by
  cases negative <;> simp [Binary64.signed]

/-- The integer part of a stored real is below `2 ^ 65` in magnitude. -/
theorem natAbs_truncate_decode_lt (bits : BitVec 24) :
    ((StoredReal.decode bits).truncate.getD 0).natAbs < 10 ^ 100 := by
  have field := Nat.mod_lt (bits.toNat / 2 ^ 16) (show 2 ^ 7 > 0 by decide)
  have fraction := Nat.mod_lt bits.toNat (show 2 ^ 16 > 0 by decide)
  unfold StoredReal.decode
  dsimp only
  split
  · simp [Binary64.zero, Binary64.truncate, Binary64.signed]
  · simp only [Binary64.truncate, Option.getD_some, StoredReal.fractionBits, StoredReal.bias]
    generalize hm : (2 ^ 16 + bits.toNat % 2 ^ 16) * 2 ^ 36 = m
    generalize he : ((bits.toNat / 2 ^ 16 % 2 ^ 7 : Nat) : Int) - 63 - 52 = e
    have significand : m < 2 ^ 53 := by omega
    have scale : Binary64.scaleUp e ≤ 2 ^ 12 := Nat.pow_le_pow_right (by decide) (by omega)
    have bound : m * Binary64.scaleUp e / Binary64.scaleUp (-e) < 10 ^ 100 := calc
      m * Binary64.scaleUp e / Binary64.scaleUp (-e) ≤ m * Binary64.scaleUp e := Nat.div_le_self _ _
      _ ≤ 2 ^ 53 * 2 ^ 12 := Nat.mul_le_mul (by omega) scale
      _ < 10 ^ 100 := by norm_num
    exact (natAbs_signed _ _).trans_lt bound

theorem small_of_fits {n : Int} (fits : Word.fits n) : Small (.integer n) :=
  Nat.lt_of_le_of_lt (Word.natAbs_le_of_fits fits) (by decide)

section

variable {a b value : Number}

theorem Held.small_neg (held : Held value) : Small value.neg := by
  cases held with
  | integer fits =>
    have := Word.natAbs_le_of_fits fits
    show (-_ : Int).natAbs < 10 ^ 100
    omega
  | real bits => trivial

theorem Held.small_abs (held : Held value) : Small value.abs := by
  cases held with
  | integer fits =>
    have := Word.natAbs_le_of_fits fits
    show Int.natAbs (Int.natAbs _) < 10 ^ 100
    omega
  | real bits => trivial

theorem Held.small_integerPart (held : Held value) : Small (integerPart value) := by
  cases held with
  | integer fits => exact small_of_fits fits
  | real bits => exact natAbs_truncate_decode_lt bits

/-- An operation whose integer results are small on words gives nothing long on stored numbers. -/
theorem small_arith {onInt : Int → Int → Int} {onReal : Binary64 → Binary64 → Binary64}
    (small : ∀ n m, n.natAbs ≤ 2 ^ 23 → m.natAbs ≤ 2 ^ 23 → (onInt n m).natAbs < 10 ^ 100)
    (left : Held a) (right : Held b) : Small (Number.arith onInt onReal a b) := by
  cases left with
  | real => exact True.intro
  | integer leftFits =>
    cases right with
    | real => exact True.intro
    | integer rightFits =>
      exact small _ _ (Word.natAbs_le_of_fits leftFits) (Word.natAbs_le_of_fits rightFits)

/-- Of two numbers out of words no operation makes a long one. -/
theorem small_apply {op : Arithmetic} (left : Held a) (right : Held b) (applied : op.apply a b = .ok value) :
    Small value := by
  cases op with
  | add =>
    cases applied
    exact small_arith (fun n m hn hm => by omega) left right
  | subtract =>
    cases applied
    exact small_arith (fun n m hn hm => by omega) left right
  | multiply =>
    cases applied
    refine small_arith (fun n m hn hm => ?_) left right
    have product := Nat.mul_le_mul hn hm
    rw [Int.natAbs_mul]
    omega
  | divide =>
    unfold Arithmetic.apply at applied
    dsimp only at applied
    split at applied
    · cases applied
    · cases applied
      refine small_arith (fun n m hn hm => ?_) left right
      have := Int.natAbs_tdiv_le_natAbs n m
      omega

end

/-! ## Errors about words -/

/-- A word without a number is refused for its kind. -/
theorem number_ne_integerRange {w : Word} {e : WordError} (refused : w.number = .error e) (n : Int) :
    e ≠ .integerRange n := by
  obtain ⟨tag, bits⟩ := w
  rintro rfl
  cases tag <;> cases refused

/-- The one integer that a number is refused for is itself. -/
theorem eq_integer_of_integerRange {value : Number} {n : Int}
    (refused : Word.ofNumber value = .error (.integerRange n)) : value = .integer n := by
  cases value with
  | integer k =>
    have unstored : StoredInteger.encode k = .error (.integerRange n) := map_eq_error_iff.mp refused
    unfold StoredInteger.encode at unstored
    split at unstored
    · cases unstored
    · cases unstored
      rfl
  | real x =>
    have unstored : StoredReal.encode x = .error (.integerRange n) := map_eq_error_iff.mp refused
    rcases StoredReal.unstorable_or_tooLarge unstored with other | other <;> cases other

end Machine

end WordMachine
