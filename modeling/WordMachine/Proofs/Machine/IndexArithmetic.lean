import WordMachine.Proofs.Machine.IntegerArithmetic

/-!
# Arithmetic on index registers

Seven operations exist twice, on accumulators and on index registers. The one is carried out on words and the other
on the integers themselves, but both come to the same result (`Operation.result`), keep it if a word holds it, and
fault for the same kind of reason if there is none or no word holds it (`index_arithmetic_agrees`).
-/
namespace WordMachine

/-- An operation that exists on accumulators and on index registers. -/
inductive Operation where
  | bits (op : Machine.Bitwise)
  | number (op : Machine.Arithmetic)
  deriving DecidableEq, Repr

namespace Operation

def onAccumulator : Operation → Mnemonic
  | .bits .or => .or
  | .bits .neqv => .neqv
  | .bits .and => .and
  | .number .add => .add
  | .number .subtract => .subt
  | .number .multiply => .mult
  | .number .divide => .dvd

def onIndex : Operation → Mnemonic
  | .bits .or => .orx
  | .bits .neqv => .neqvx
  | .bits .and => .andx
  | .number .add => .addx
  | .number .subtract => .subtx
  | .number .multiply => .multx
  | .number .divide => .dvdx

/-- The exact result on two integers of 24 bits, whether or not it has 24 bits itself. There is none of a division by
zero. -/
def result (op : Operation) (a b : Int) : Option Int :=
  match op with
  | .bits op => some (op.apply (.ofInt 24 a) (.ofInt 24 b)).toInt
  | .number .add => some (a + b)
  | .number .subtract => some (a - b)
  | .number .multiply => some (a * b)
  | .number .divide => if b = 0 then none else some (a.tdiv b)

def carry (op : Operation) (a b : Int) (make : Int → Except FaultCause Effect) : Except FaultCause Effect :=
  match op.result a b with
  | some r => make r
  | none => .error (.divisionByZero (.integer a) (.integer b))

end Operation

namespace Machine

section

variable (m : Machine) (op : Operation) (n : Fin 8) (c : Int) (w : Word)

/-- The next instruction carries out the operation on an index register that holds `c`, with the word as operand. -/
structure CalculatesIndex : Prop where
  live : m.status.isTerminal = false
  instruction : ∃ i, m.fetch = .ok i ∧ i.mnemonic = op.onIndex ∧ i.accumulator = n ∧ m.operand i = .ok w
  register : m.index.get n = c

/-- The next instruction carries out the operation on an accumulator that holds the integer word of `c`, with the word
as operand. -/
structure CalculatesAccumulator : Prop where
  live : m.status.isTerminal = false
  instruction : ∃ i, m.fetch = .ok i ∧ i.mnemonic = op.onAccumulator ∧ i.accumulator = n ∧ m.operand i = .ok w
  register : (m.memory.accumulator n).HoldsInteger c

end

/-- The next step completes and leaves the result in its place, or faults because there is no result, or no word of
it. -/
inductive Settles (m : Machine) (keeps : Machine → Int → Prop) : Option Int → Prop where
  | kept {r : Int} {next : Machine} (fits : Word.fits r) (completed : m.step = (next, none)) (value : keeps next r) :
    Settles m keeps (some r)
  | unfit {r : Int} {next : Machine} {f : Fault} (unfit : ¬ Word.fits r) (faults : m.FaultsTo next f)
      (kind : f.cause.kind = .registerOutOfRange) : Settles m keeps (some r)
  | undefined {next : Machine} {f : Fault} (faults : m.FaultsTo next f) (kind : f.cause.kind = .divisionByZero) :
    Settles m keeps none

/-- The steps of two machines complete or fault together, for one kind of reason; when they complete, an index register
of the first and an accumulator of the second have one value. -/
structure Agrees (m : Machine) (n : Fin 8) (k : Machine) (p : Fin 8) : Prop where
  settled : (∃ next, m.step = (next, none)) ∨ ∃ next f, m.FaultsTo next f
  completes_iff : (∃ next, m.step = (next, none)) ↔ ∃ next, k.step = (next, none)
  value : ∀ next other, m.step = (next, none) → k.step = (other, none) →
    (other.memory.accumulator p).HoldsInteger (next.index.get n)
  faults_iff : ∀ kind, (∃ next f, m.FaultsTo next f ∧ f.cause.kind = kind) ↔
    ∃ next f, k.FaultsTo next f ∧ f.cause.kind = kind

section

variable {m k : Machine} {i : Instruction} {op : Operation} {n p : Fin 8} {a b c v : Int} {w : Word}

/-! ## Results -/

theorem apply_integers (op : Arithmetic) (a b : Int) :
    op.apply (.integer a) (.integer b) =
      match (Operation.number op).result a b with
      | some r => .ok (.integer r)
      | none => .error (.divisionByZero (.integer a) (.integer b)) := by
  cases op with
  | add | subtract | multiply => rfl
  | divide =>
    by_cases zero : b = 0
    · subst zero
      rfl
    · have nonzero : (b == 0) = false := beq_eq_false_iff_ne.mpr zero
      simp only [Arithmetic.apply, Numeric.Number.isZero, nonzero, Operation.result, if_neg zero]
      rfl

/-- Results on integers of 24 bits are far from too long to be written. -/
theorem isWritable_result (op : Operation) {r : Int} (left : Word.fits a) (right : Word.fits b)
    (result : op.result a b = some r) : Text.isWritable r = true := by
  cases op with
  | bits op =>
    cases result
    have small := Word.natAbs_le_of_fits (Word.fits_toInt (op.apply (.ofInt 24 a) (.ofInt 24 b)))
    exact Text.isWritable_of_natAbs_lt (by omega)
  | number op =>
    have applied : op.apply (.integer a) (.integer b) = .ok (.integer r) := by rw [apply_integers, result]
    exact Text.isWritable_of_natAbs_lt (small_apply (.integer left) (.integer right) applied)

/-! ## Carrying out -/

theorem integerOf_of_holds (holds : w.HoldsInteger b) : integerOf w = .ok b := by
  obtain ⟨tag, bits⟩ := w
  cases tag with
  | integer =>
    cases holds
    rfl
  | _ => cases holds

/-- An integer word is known by its value. -/
theorem eq_of_holds (holds : w.HoldsInteger b) : w = ⟨.integer, .ofInt 24 b⟩ := by
  obtain ⟨tag, bits⟩ := w
  cases tag with
  | integer =>
    cases holds
    rw [StoredInteger.decode, BitVec.ofInt_toInt]
  | _ => cases holds

/-- On an index register the exact result is put back if it fits. -/
theorem executeIndex_eq (mnemonic : i.mnemonic = op.onIndex) (operand : m.operand i = .ok w)
    (holds : w.HoldsInteger b) :
    m.executeIndex i = op.carry (m.index.get i.accumulator) b (m.setIndexRegister i.accumulator) := by
  have integer := integerOf_of_holds holds
  cases op with
  | bits op =>
    have same : m.executeIndex i = m.combineIndex i op := by
      unfold executeIndex
      rw [mnemonic]
      cases op <;> rfl
    rw [same, combineIndex, operand]
    simp only [bind, Except.bind, integer]
    rfl
  | number op =>
    have same : m.executeIndex i = m.calculateIndex i op := by
      unfold executeIndex
      rw [mnemonic]
      cases op <;> rfl
    rw [same, calculateIndex, operand]
    simp only [bind, Except.bind, integer, apply_integers, Operation.carry]
    cases (Operation.number op).result (m.index.get i.accumulator) b <;> rfl

theorem wordOf_toInt (bits : BitVec 24) : wordOf (.integer bits.toInt) = .ok ⟨.integer, bits⟩ := by
  obtain ⟨w, made, holds⟩ := exists_wordOf (Word.fits_toInt bits)
  rw [made, eq_of_holds holds, BitVec.ofInt_toInt]

/-- On an accumulator it is the word of the result. -/
theorem executeAccumulator_eq (mnemonic : i.mnemonic = op.onAccumulator) (operand : m.operand i = .ok w)
    (current : (m.memory.accumulator i.accumulator).HoldsInteger a) (holds : w.HoldsInteger b) :
    m.executeAccumulator i = op.carry a b (m.putting i.accumulator.val) := by
  cases op with
  | bits op =>
    have same : m.executeAccumulator i = m.combine i op := by
      unfold executeAccumulator
      rw [mnemonic]
      cases op <;> rfl
    rw [same, combine, operand, eq_of_holds current, eq_of_holds holds]
    simp only [Operation.carry, Operation.result, putting, wordOf_toInt]
    rfl
  | number op =>
    have same : m.executeAccumulator i = m.calculate i op := by
      unfold executeAccumulator
      rw [mnemonic]
      cases op <;> rfl
    have applied := apply_integers op a b
    rw [same, Operation.carry]
    cases result : (Operation.number op).result a b with
    | some r =>
      rw [result] at applied
      exact calculate_of_terms op ⟨current, w, operand, holds⟩ applied
    | none =>
      rw [result] at applied
      rw [Word.HoldsInteger] at current holds
      simp only [calculate, operand, numberOf, current, holds, Except.mapError, bind, Except.bind, applied]

/-! ## Steps -/

/-- A way to keep results that keeps those of 24 bits and refuses others as out of range settles the step. -/
theorem settles_of_carried {make : Int → Except FaultCause Effect} {keeps : Machine → Int → Prop}
    (live : m.status.isTerminal = false) (fetched : m.fetch = .ok i)
    (executed : m.execute i = (m.supply, (op.carry a b make).mapError .fault))
    (left : Word.fits a) (right : Word.fits b)
    (kept : ∀ r, Word.fits r → ∃ e, make r = .ok e ∧ keeps (m.complete (shownName i) e) r)
    (refused : ∀ r, ¬ Word.fits r → ∃ cause, make r = .error cause ∧ cause.kind = .registerOutOfRange ∧
      cause.isWritable = Text.isWritable r) : m.Settles keeps (op.result a b) := by
  rw [Operation.carry] at executed
  cases result : op.result a b with
  | none =>
    rw [result] at executed
    obtain ⟨next, f, faults, cause⟩ := faultsTo_with_cause m.supply rfl (step_of_faulted live fetched executed)
    exact .undefined faults (by rw [cause]; rfl)
  | some r =>
    rw [result] at executed
    by_cases fits : Word.fits r
    · obtain ⟨e, made, value⟩ := kept r fits
      simp only [made] at executed
      exact .kept fits (step_of_completed live fetched executed) value
    · obtain ⟨cause, made, kind, written⟩ := refused r fits
      simp only [made] at executed
      have short : cause.isWritable = true := written.trans (isWritable_result op left right result)
      obtain ⟨next, f, faults, rfl⟩ := faultsTo_with_cause m.supply short (step_of_faulted live fetched executed)
      exact .unfit fits faults kind

/-- The step on an index register is settled by the exact result. -/
theorem CalculatesIndex.settles (calculates : m.CalculatesIndex op n c w) (current : Word.fits c)
    (holds : w.HoldsInteger v) : m.Settles (fun next r => next.index.get n = r) (op.result c v) := by
  obtain ⟨live, ⟨i, fetched, mnemonic, rfl, operand⟩, rfl⟩ := calculates
  have executed : m.execute i = (m.supply, (op.carry (m.index.get i.accumulator) v
      (m.setIndexRegister i.accumulator)).mapError .fault) := by
    have family : i.mnemonic.family = .index := by
      rw [mnemonic]
      cases op with
      | bits op | number op => cases op <;> rfl
    simp only [execute, family, executeIndex_eq mnemonic operand holds]
  refine settles_of_carried live fetched executed current holds.fits (fun r fits => ?_) fun r unfit => ?_
  · refine ⟨{ m.goOn with setIndex := some (i.accumulator, r) }, ?_, ?_⟩
    · simp only [setIndexRegister, fitting, if_pos fits, bind, Except.bind, pure, Except.pure]
    · simp [complete, apply, Vector.get_eq_getElem]
  · refine ⟨.doesNotFit r, ?_, rfl, rfl⟩
    simp only [setIndexRegister, fitting, if_neg unfit, bind, Except.bind]

/-- The step on an accumulator is settled by the exact result too. -/
theorem CalculatesAccumulator.settles (calculates : m.CalculatesAccumulator op n c w) (holds : w.HoldsInteger v) :
    m.Settles (fun next r => (next.memory.accumulator n).HoldsInteger r) (op.result c v) := by
  obtain ⟨live, ⟨i, fetched, mnemonic, rfl, operand⟩, current⟩ := calculates
  have executed : m.execute i = (m.supply, (op.carry c v (m.putting i.accumulator.val)).mapError .fault) := by
    have family : i.mnemonic.family = .accumulator := by
      rw [mnemonic]
      cases op with
      | bits op | number op => cases op <;> rfl
    simp only [execute, family, executeAccumulator_eq mnemonic operand current holds]
  refine settles_of_carried live fetched executed current.fits holds.fits (fun r fits => ?_) fun r unfit => ?_
  · obtain ⟨made, word, value⟩ := exists_wordOf fits
    refine ⟨m.setAccumulator i.accumulator made, by rw [putting, word]; rfl, ?_⟩
    rw [accumulator_complete]
    exact value
  · exact ⟨.word (.integerRange r), by rw [putting, wordOf_eq_error unfit]; rfl, rfl, rfl⟩

/-! ## Two machines -/

theorem agrees_of_completed {next other : Machine} (completed : m.step = (next, none)) (too : k.step = (other, none))
    (value : (other.memory.accumulator p).HoldsInteger (next.index.get n)) : m.Agrees n k p where
  settled := Or.inl ⟨next, completed⟩
  completes_iff := ⟨fun _ => ⟨other, too⟩, fun _ => ⟨next, completed⟩⟩
  value x y first second := by
    cases completed.symm.trans first
    cases too.symm.trans second
    exact value
  faults_iff kind := ⟨fun ⟨_, _, faults, _⟩ => absurd completed (faults.incomplete next),
    fun ⟨_, _, faults, _⟩ => absurd too (faults.incomplete other)⟩

theorem agrees_of_faults {next other : Machine} {f g : Fault} (faults : m.FaultsTo next f) (too : k.FaultsTo other g)
    (same : f.cause.kind = g.cause.kind) : m.Agrees n k p where
  settled := Or.inr ⟨next, f, faults⟩
  completes_iff := ⟨fun ⟨x, completed⟩ => absurd completed (faults.incomplete x),
    fun ⟨x, completed⟩ => absurd completed (too.incomplete x)⟩
  value x _ completed _ := absurd completed (faults.incomplete x)
  faults_iff := faults.kind_iff too same

/-- The result is all that the two steps depend on. -/
theorem Settles.agrees {result : Option Int} (register : m.Settles (fun next r => next.index.get n = r) result)
    (accumulator : k.Settles (fun next r => (next.memory.accumulator p).HoldsInteger r) result) :
    m.Agrees n k p := by
  cases register with
  | kept fits completed value =>
    cases accumulator with
    | kept _ too held => exact agrees_of_completed completed too (value ▸ held)
    | unfit unfit => exact absurd fits unfit
  | unfit unfit faults kind =>
    cases accumulator with
    | kept fits => exact absurd fits unfit
    | unfit _ too same => exact agrees_of_faults faults too (kind.trans same.symm)
  | undefined faults kind =>
    cases accumulator with
    | undefined too same => exact agrees_of_faults faults too (kind.trans same.symm)

/-- An operation on an index register does what it does on an accumulator that holds the same integer. -/
theorem index_arithmetic_agrees (register : m.CalculatesIndex op n c w) (accumulator : k.CalculatesAccumulator op p c w)
    (holds : w.HoldsInteger v) : m.Agrees n k p :=
  (register.settles accumulator.register.fits holds).agrees (accumulator.settles holds)

end

/-- A program that subtracts the word in location 9 from index register 2, or from accumulator 1. -/
def subtractingMachine (mnemonic : Mnemonic) (n : Fin 8) : Machine where
  memory := ⟨(((Array.replicate 10 Word.zero).setIfInBounds 1 ⟨.integer, 0o40000000⟩).setIfInBounds 8
    (Instruction.encode { Instruction.ofBits 0o00000011 with mnemonic, accumulator := n })).setIfInBounds 9
    ⟨.integer, 1⟩, Nat.le_of_ble_eq_true rfl⟩
  index := #v[0, 0, -2 ^ 23, 0, 0, 0, 0, 0]
  counter := 8

/-- One less than the least integer is out of range for both. -/
theorem subtractingMachine_agrees :
    (subtractingMachine .subtx 2).CalculatesIndex (.number .subtract) 2 (-2 ^ 23) ⟨.integer, 1⟩ ∧
    (subtractingMachine .subt 1).CalculatesAccumulator (.number .subtract) 1 (-2 ^ 23) ⟨.integer, 1⟩ ∧
    Word.HoldsInteger ⟨.integer, 1⟩ 1 ∧
    (subtractingMachine .subtx 2).Agrees 2 (subtractingMachine .subt 1) 1 := by
  have register : (subtractingMachine .subtx 2).CalculatesIndex (.number .subtract) 2 (-2 ^ 23) ⟨.integer, 1⟩ :=
    ⟨rfl, ⟨⟨.subtx, 2, 0, false, 0, 9⟩, by decide +kernel, rfl, rfl, by decide +kernel⟩, by decide⟩
  have accumulator :
      (subtractingMachine .subt 1).CalculatesAccumulator (.number .subtract) 1 (-2 ^ 23) ⟨.integer, 1⟩ :=
    ⟨rfl, ⟨⟨.subt, 1, 0, false, 0, 9⟩, by decide +kernel, rfl, rfl, by decide +kernel⟩, rfl⟩
  exact ⟨register, accumulator, rfl, index_arithmetic_agrees register accumulator rfl⟩

end Machine

end WordMachine
