import WordMachine.Proofs.Machine.Effects
import WordMachine.Proofs.Machine.PlainStep
import WordMachine.Proofs.Machine.StepOutcome

/-!
# Integer arithmetic is exact or faults

On integer words an instruction that calculates has one exact result and one location to put it (`Computes`). It
completes exactly when a word holds the result, and then the result is at the location; otherwise it faults, and
nothing is changed (`PutsExactly`). A quotient is taken toward zero, so only the least integer divided by minus one
has a quotient that no word holds.
-/
namespace WordMachine

/-- The quotient taken toward zero: what is left over is smaller than the divisor, and is nothing or has the sign of
the dividend. -/
structure IsQuotient (a b q : Int) : Prop where
  remainder : (a - q * b).natAbs < b.natAbs
  sign : a - q * b = 0 ∨ (a - q * b).sign = a.sign

/-- Division toward zero leaves less than the divisor over. -/
theorem isQuotient_tdiv (a : Int) {b : Int} (nonzero : b ≠ 0) : IsQuotient a b (a.tdiv b) := by
  have left : a - a.tdiv b * b = a.tmod b := by
    rw [Int.tdiv_mul_self]
    omega
  constructor
  · rw [left, Int.natAbs_tmod]
    exact Nat.mod_lt _ (Int.natAbs_pos.mpr nonzero)
  · rw [left]
    rcases Int.lt_trichotomy a 0 with negative | rfl | positive
    · have signs : a.tmod b ≤ 0 := ((Int.tdiv_tmod_unique' (Int.le_of_lt negative) nonzero).mp ⟨rfl, rfl⟩).2.2
      rcases Int.lt_or_eq_of_le signs with below | nothing
      · exact Or.inr ((Int.sign_eq_neg_one_of_neg below).trans (Int.sign_eq_neg_one_of_neg negative).symm)
      · exact Or.inl nothing
    · exact Or.inl (Int.zero_tmod b)
    · have signs : 0 ≤ a.tmod b := Int.tmod_nonneg b (Int.le_of_lt positive)
      rcases Int.lt_or_eq_of_le signs with above | nothing
      · exact Or.inr ((Int.sign_eq_one_of_pos above).trans (Int.sign_eq_one_of_pos positive).symm)
      · exact Or.inl nothing.symm

/-- There is only one quotient. -/
theorem IsQuotient.eq_tdiv {a b q : Int} (quotient : IsQuotient a b q) : q = a.tdiv b := by
  have remainder := quotient.remainder
  have nonzero : b ≠ 0 := by omega
  have whole : a - q * b + b * q = a := by
    rw [Int.mul_comm b q]
    omega
  have signs : (0 ≤ a → 0 ≤ a - q * b) ∧ (a ≤ 0 → a - q * b ≤ 0) := by
    rcases quotient.sign with nothing | same
    · omega
    · constructor
      · intro positive
        exact Int.sign_nonneg_iff.mp (same ▸ Int.sign_nonneg_iff.mpr positive)
      · intro negative
        exact Int.sign_nonpos_iff.mp (same ▸ Int.sign_nonpos_iff.mpr negative)
  -- The library has uniqueness for each sign of the dividend.
  rcases Int.le_total 0 a with positive | negative
  · exact ((Int.tdiv_tmod_unique positive nonzero).mpr ⟨whole, signs.1 positive, by omega⟩).1.symm
  · exact ((Int.tdiv_tmod_unique' negative nonzero).mpr ⟨whole, by omega, signs.2 negative⟩).1.symm

theorem fits_iff {n : Int} : Word.fits n ↔ -2 ^ 23 ≤ n ∧ n ≤ 2 ^ 23 - 1 :=
  Iff.rfl

/-- The quotient of two integers that fit does not fit in one case. -/
theorem fits_quotient_iff {a b q : Int} (fits : Word.fits a) (quotient : IsQuotient a b q) :
    Word.fits q ↔ ¬ (a = -2 ^ 23 ∧ b = -1) := by
  have remainder := quotient.remainder
  have smaller : q.natAbs ≤ a.natAbs := quotient.eq_tdiv ▸ Int.natAbs_tdiv_le_natAbs a b
  simp only [fits_iff] at fits ⊢
  constructor
  · rintro bounds ⟨rfl, rfl⟩
    omega
  · intro other
    -- Only the least integer is as large as `2 ^ 23`, and its quotient by anything but minus one is smaller.
    by_cases least : q = 2 ^ 23
    · subst least
      omega
    · omega

namespace Machine

section

variable (m : Machine) (i : Instruction)

/-- The accumulator and the operand hold these integers. -/
def Terms (a b : Int) : Prop :=
  (m.memory.accumulator i.accumulator).HoldsInteger a ∧ ∃ w, m.operand i = .ok w ∧ w.HoldsInteger b

/-- The location that an instruction on integers works on, and the exact result that belongs there. -/
inductive Computes : Nat → Int → Prop where
  | add {a b : Int} (add : i.mnemonic = .add) (terms : m.Terms i a b) : Computes i.accumulator.val (a + b)
  | subtract {a b : Int} (subt : i.mnemonic = .subt) (terms : m.Terms i a b) : Computes i.accumulator.val (a - b)
  | multiply {a b : Int} (mult : i.mnemonic = .mult) (terms : m.Terms i a b) : Computes i.accumulator.val (a * b)
  | divide {a b q : Int} (dvd : i.mnemonic = .dvd) (terms : m.Terms i a b) (quotient : IsQuotient a b q) :
    Computes i.accumulator.val q
  | negate {w : Word} {b : Int} (tneg : i.mnemonic = .tneg) (operand : m.operand i = .ok w)
      (holds : w.HoldsInteger b) : Computes i.accumulator.val (-b)
  | storeNegated {target : Nat} {a : Int} (pneg : i.mnemonic = .pneg) (address : m.effectiveAddress i = .ok target)
      (holds : (m.memory.accumulator i.accumulator).HoldsInteger a) : Computes target (-a)
  | increment {target : Nat} {value : Int} (incr : i.mnemonic = .incr) (address : m.effectiveAddress i = .ok target)
      (holds : (m.memory.get target).HoldsInteger value) : Computes target (value + 1)
  | decrement {target : Nat} {value : Int} (decr : i.mnemonic = .decr) (address : m.effectiveAddress i = .ok target)
      (holds : (m.memory.get target).HoldsInteger value) : Computes target (value - 1)
  | absolute {a : Int} (called : m.Calls i .abs) (holds : (m.memory.accumulator i.accumulator).HoldsInteger a) :
    Computes i.accumulator.val |a|

/-- The step puts a result at a location if a word holds it, and faults if none does. -/
structure PutsExactly (location : Nat) (value : Int) : Prop where
  completes_iff : (∃ next, m.step = (next, none)) ↔ -2 ^ 23 ≤ value ∧ value ≤ 2 ^ 23 - 1
  stored : ∀ next, m.step = (next, none) → (next.memory.get location).HoldsInteger value ∧
    ∀ other, location ≠ other → next.memory.get other = m.memory.get other
  faults : ¬ (-2 ^ 23 ≤ value ∧ value ≤ 2 ^ 23 - 1) →
    ∃ next f, m.FaultsTo next f ∧ f.cause.kind = .registerOutOfRange

end

section

variable {m : Machine} {i : Instruction} {a b : Int} {location : Nat} {value : Int}

/-! ## Carrying out -/

def putting (m : Machine) (location : Nat) (value : Int) : Except FaultCause Effect :=
  m.goOnWriting location <$> wordOf (.integer value)

theorem calculate_of_terms (op : Arithmetic) (terms : m.Terms i a b)
    (result : op.apply (.integer a) (.integer b) = .ok (.integer value)) :
    m.calculate i op = m.putting i.accumulator.val value := by
  obtain ⟨current, w, operand, holds⟩ := terms
  exact calculate_of_holds current operand holds result

theorem count_of_holds {target : Nat} {change : Int} (holds : (m.memory.get target).HoldsInteger a) :
    m.count target change = m.putting target (a + change) := by
  rw [Word.HoldsInteger] at holds
  simp only [count, numberOf, holds, Except.mapError, bind, Except.bind, Numeric.Number.add, Numeric.Number.arith]
  unfold putting
  cases wordOf (.integer (a + change)) <;> rfl

theorem negated_of_holds {w : Word} (holds : w.HoldsInteger a) :
    (do return m.goOnWriting location (← wordOf (← numberOf w).neg)) = m.putting location (-a) := by
  rw [Word.HoldsInteger] at holds
  simp only [numberOf, holds, Except.mapError, bind, Except.bind, Numeric.Number.neg]
  unfold putting
  cases wordOf (.integer (-a)) <;> rfl

theorem apply_divide (quotient : IsQuotient a b value) :
    Arithmetic.divide.apply (.integer a) (.integer b) = .ok (.integer value) := by
  have nonzero : (b == 0) = false := by
    have remainder := quotient.remainder
    rw [beq_eq_false_iff_ne]
    omega
  simp only [Arithmetic.apply, Numeric.Number.isZero, nonzero, quotient.eq_tdiv]
  rfl

theorem calculate_zero (terms : m.Terms i a 0) :
    m.calculate i .divide = .error (.divisionByZero (.integer a) (.integer 0)) := by
  obtain ⟨current, w, operand, holds⟩ := terms
  rw [Word.HoldsInteger] at current holds
  simp only [calculate, operand, numberOf, current, holds, Except.mapError, bind, Except.bind]
  rfl

theorem replaceNumber_abs {n : Fin 8} (holds : (m.memory.accumulator n).HoldsInteger a) :
    m.replaceNumber n Numeric.Number.abs = m.putting n.val |a| := by
  rw [Word.HoldsInteger] at holds
  simp only [replaceNumber, numberOf, holds, Except.mapError, bind, Except.bind, Numeric.Number.abs]
  rw [putting, Int.abs_eq_natAbs]
  cases wordOf (.integer a.natAbs) <;> rfl

/-- The instruction puts the word of its exact result at its location. -/
theorem execute_of_computes (computes : m.Computes i location value) :
    m.execute i = (m.supply, (m.putting location value).mapError .fault) := by
  cases computes with
  | add k terms =>
    have family : Mnemonic.add.family = .accumulator := rfl
    simp only [execute, k, family, executeAccumulator, calculate_of_terms .add terms rfl]
  | subtract k terms =>
    have family : Mnemonic.subt.family = .accumulator := rfl
    simp only [execute, k, family, executeAccumulator, calculate_of_terms .subtract terms rfl]
  | multiply k terms =>
    have family : Mnemonic.mult.family = .accumulator := rfl
    simp only [execute, k, family, executeAccumulator, calculate_of_terms .multiply terms rfl]
  | divide k terms quotient =>
    have family : Mnemonic.dvd.family = .accumulator := rfl
    simp only [execute, k, family, executeAccumulator, calculate_of_terms .divide terms (apply_divide quotient)]
  | negate k operand holds =>
    have family : Mnemonic.tneg.family = .accumulator := rfl
    simp only [execute, k, family, executeAccumulator, operand]
    exact congrArg (fun x => (m.supply, Except.mapError Obstacle.fault x)) (negated_of_holds holds)
  | storeNegated k address holds =>
    have family : Mnemonic.pneg.family = .store := rfl
    simp only [execute, k, family, executeStore, address]
    exact congrArg (fun x => (m.supply, Except.mapError Obstacle.fault x)) (negated_of_holds holds)
  | increment k address holds =>
    have family : Mnemonic.incr.family = .store := rfl
    simp only [execute, k, family, executeStore, address]
    exact congrArg (fun x => (m.supply, Except.mapError Obstacle.fault x)) (count_of_holds holds)
  | decrement k address holds =>
    have family : Mnemonic.decr.family = .store := rfl
    simp only [execute, k, family, executeStore, address]
    exact congrArg (fun x => (m.supply, Except.mapError Obstacle.fault x)) (count_of_holds holds)
  | absolute called holds =>
    have family : Mnemonic.extra.family = .library := rfl
    simp only [execute, called.1, family, executeLibrary, called.2, callRoutine, plainRoutine, replaceNumber_abs holds]

theorem Computes.inside (computes : m.Computes i location value) : location < m.memory.size := by
  cases computes with
  | add | subtract | multiply | divide | negate | absolute => exact accumulator_inside m i.accumulator
  | storeNegated _ address | increment _ address | decrement _ address =>
    exact resolve_lt_size (mapError_eq_ok_iff.mp address)

/-- The results are far from too long to be written. -/
theorem Computes.isWritable (computes : m.Computes i location value) : Text.isWritable value = true := by
  have small {n : Int} {w : Word} (holds : w.HoldsInteger n) : n.natAbs ≤ 2 ^ 23 := Word.natAbs_le_of_fits holds.fits
  apply Text.isWritable_of_natAbs_lt
  cases computes with
  | add _ terms | subtract _ terms =>
    obtain ⟨current, w, -, holds⟩ := terms
    have left := small current
    have right := small holds
    omega
  | @multiply a b _ terms =>
    obtain ⟨current, w, -, holds⟩ := terms
    calc (a * b).natAbs = a.natAbs * b.natAbs := Int.natAbs_mul a b
      _ ≤ 2 ^ 23 * 2 ^ 23 := Nat.mul_le_mul (small current) (small holds)
      _ < 10 ^ 100 := by norm_num
  | @divide a b _ _ terms quotient =>
    have left := small terms.1
    have smaller : (a.tdiv b).natAbs ≤ a.natAbs := Int.natAbs_tdiv_le_natAbs a b
    rw [quotient.eq_tdiv]
    omega
  | negate _ _ holds | storeNegated _ _ holds | increment _ _ holds | decrement _ _ holds =>
    have bound := small holds
    omega
  | absolute _ holds =>
    have bound := small holds
    rw [Int.natAbs_abs]
    omega

/-! ## Steps -/

/-- What puts a short number at a location completes exactly if a word holds it. -/
theorem putsExactly_of_putting (live : m.status.isTerminal = false) (fetched : m.fetch = .ok i)
    (executed : m.execute i = (m.supply, (m.putting location value).mapError .fault))
    (inside : location < m.memory.size) (short : Text.isWritable value = true) : m.PutsExactly location value := by
  rw [putting] at executed
  by_cases fits : Word.fits value
  · obtain ⟨w, made, holds⟩ := exists_wordOf fits
    rw [made] at executed
    have step := step_of_completed live fetched executed
    refine ⟨⟨fun _ => fits, fun _ => ⟨_, step⟩⟩, fun next result => ?_, fun unfit => absurd fits unfit⟩
    cases step.symm.trans result
    constructor
    · have put := Memory.get_set_self inside w
      exact put.symm ▸ holds
    · exact fun other apart => Memory.get_set_ne m.memory apart w
  · rw [wordOf_eq_error fits] at executed
    have step := step_of_faulted live fetched executed
    have written : (FaultCause.word (.integerRange value)).isWritable = true := short
    obtain ⟨next, f, faults, cause⟩ := faultsTo_with_cause m.supply written step
    refine ⟨⟨fun ⟨other, completed⟩ => absurd completed (faults.incomplete other), fun bounds => absurd bounds fits⟩, ?_, ?_⟩
    · exact fun other completed => absurd completed (faults.incomplete other)
    · exact fun _ => ⟨next, f, faults, by rw [cause]; rfl⟩

/-- The step of an instruction on integers completes exactly if its result fits a word. -/
theorem putsExactly_of_computes (live : m.status.isTerminal = false) (fetched : m.fetch = .ok i)
    (computes : m.Computes i location value) : m.PutsExactly location value :=
  putsExactly_of_putting live fetched (execute_of_computes computes) computes.inside computes.isWritable

/-- A division by zero faults, whatever the accumulator holds. -/
theorem faultsTo_of_divide_zero (live : m.status.isTerminal = false) (fetched : m.fetch = .ok i)
    (dvd : i.mnemonic = .dvd) (terms : m.Terms i a 0) :
    ∃ next f, m.FaultsTo next f ∧ f.cause.kind = .divisionByZero := by
  have executed : m.execute i =
      (m.supply, .error (.fault (.divisionByZero (.integer a) (.integer 0)))) := by
    have family : Mnemonic.dvd.family = .accumulator := rfl
    simp only [execute, dvd, family, executeAccumulator, calculate_zero terms, Except.mapError]
  obtain ⟨next, f, faults, cause⟩ := faultsTo_with_cause m.supply rfl (step_of_faulted live fetched executed)
  exact ⟨next, f, faults, by rw [cause]; rfl⟩

/-- Integer arithmetic gives the exact result or faults. -/
theorem integer_arithmetic_exact (live : m.status.isTerminal = false) (fetched : m.fetch = .ok i) :
    (∀ location value, m.Computes i location value → m.PutsExactly location value) ∧
    (∀ a b, i.mnemonic = .dvd → m.Terms i a b →
      (b = 0 → ∃ next f, m.FaultsTo next f ∧ f.cause.kind = .divisionByZero) ∧
      (b ≠ 0 → ∃ q, IsQuotient a b q ∧ (∀ other, IsQuotient a b other → other = q) ∧
        (-2 ^ 23 ≤ q ∧ q ≤ 2 ^ 23 - 1 ↔ ¬ (a = -2 ^ 23 ∧ b = -1)))) := by
  refine ⟨fun location value => putsExactly_of_computes live fetched, fun a b dvd terms => ⟨?_, ?_⟩⟩
  · rintro rfl
    exact faultsTo_of_divide_zero live fetched dvd terms
  · intro nonzero
    have quotient := isQuotient_tdiv a nonzero
    exact ⟨a.tdiv b, quotient, fun other also => also.eq_tdiv, fits_quotient_iff terms.1.fits quotient⟩

end

/-- A program that divides the least integer, in accumulator 1, by the minus one in location 9. -/
def dividingMachine : Machine where
  memory := ⟨(((Array.replicate 10 Word.zero).set 1 ⟨.integer, 0o40000000⟩).set 8
    ⟨.instruction, 0o07100011⟩).set 9 ⟨.integer, 0o77777777⟩, by decide⟩
  counter := 8

/-- The quotient is one more than the greatest integer. -/
theorem dividingMachine_overflows :
    dividingMachine.status.isTerminal = false ∧
    dividingMachine.fetch = .ok ⟨.dvd, 1, 0, false, 0, 9⟩ ∧
    dividingMachine.Computes ⟨.dvd, 1, 0, false, 0, 9⟩ 1 (2 ^ 23) ∧
    ∃ next f, dividingMachine.FaultsTo next f ∧ f.cause.kind = .registerOutOfRange := by
  have live : dividingMachine.status.isTerminal = false := rfl
  have fetched : dividingMachine.fetch = .ok ⟨.dvd, 1, 0, false, 0, 9⟩ := rfl
  have terms : dividingMachine.Terms ⟨.dvd, 1, 0, false, 0, 9⟩ (-2 ^ 23) (-1) :=
    ⟨rfl, ⟨.integer, 0o77777777⟩, by decide +kernel, rfl⟩
  have computes : dividingMachine.Computes ⟨.dvd, 1, 0, false, 0, 9⟩ 1 (2 ^ 23) :=
    .divide rfl terms ⟨by decide, Or.inl (by decide)⟩
  have exact_or_fault := (integer_arithmetic_exact live fetched).1 1 (2 ^ 23) computes
  exact ⟨live, fetched, computes, exact_or_fault.faults (by decide)⟩

end Machine

end WordMachine
