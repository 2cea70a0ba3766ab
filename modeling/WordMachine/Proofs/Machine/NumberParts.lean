import WordMachine.Proofs.StoredReal.Parts

/-!
# Integer part and fraction of an accumulator

One routine leaves the integer part of a number and another the fraction, and together they are the number
(`parts_add_up`). A fraction is always stored as it is; an integer part that no word holds is a fault. Reals with an
exponent field of zero are left out: they are below the least magnitude, so as fractions they are stored as zero.
-/
namespace WordMachine

open Numeric

/-- The words of numbers: every integer, and of the reals zero and those with an exponent field that is not zero. -/
inductive Word.Regular : Word → Prop where
  | integer (bits : BitVec 24) : Word.Regular ⟨.integer, bits⟩
  | real {bits : BitVec 24} (regular : StoredReal.Regular bits) : Word.Regular ⟨.real, bits⟩

/-- The number of a word, its integer part and the bits of its fraction. -/
structure Word.SplitsInto (w : Word) (value : Number) (t : Int) (f : BitVec 24) : Prop where
  number : w.number = .ok value
  truncated : value.truncate = some t
  whole : IsIntegerPart value.toRat t
  fraction : Word.ofNumber (Machine.fractionPart value) = .ok ⟨.real, f⟩
  exact : (StoredReal.decode f).toRat = value.toRat - t
  short : t.natAbs < 10 ^ 100

/-- Every regular number has its parts. -/
theorem Word.Regular.exists_splitsInto {w : Word} (regular : w.Regular) : ∃ value t f, w.SplitsInto value t f := by
  cases regular with
  | integer bits =>
    have bound := Word.natAbs_le_of_fits (Word.fits_toInt bits)
    refine ⟨.integer bits.toInt, bits.toInt, 0, rfl, rfl, isIntegerPart_intCast _, ?_, ?_, by omega⟩
    · have nothing : Machine.fractionPart (.integer bits.toInt) = .real (.ofInt 0) := by
        simp [Machine.fractionPart, Machine.integerPart, Number.truncate, Number.sub, Number.arith, Number.toReal]
      rw [nothing]
      rfl
    · rw [StoredReal.toRat_decode_zero, Number.toRat, sub_self]
  | @real bits regular =>
    obtain ⟨t, f, truncated, whole, stored, exact⟩ := StoredReal.exists_fraction regular
    have short := Machine.natAbs_truncate_decode_lt bits
    rw [truncated, Option.getD_some] at short
    refine ⟨.real (StoredReal.decode bits), t, f, rfl, truncated, whole, ?_, exact, short⟩
    have rest : Machine.fractionPart (.real (StoredReal.decode bits)) =
        .real ((StoredReal.decode bits).sub (.ofInt t)) := by
      simp only [Machine.fractionPart, Machine.integerPart, Number.truncate, truncated, Option.getD_some]
      rfl
    rw [rest, Word.ofNumber, Word.ofReal, stored]
    rfl

namespace Machine

/-- The machine is at a call of the routine, on an accumulator that holds the word. -/
structure CallsOn (m : Machine) (r : Routine) (n : Fin 8) (w : Word) : Prop where
  live : m.status.isTerminal = false
  called : ∃ i, m.fetch = .ok i ∧ m.Calls i r ∧ i.accumulator = n
  holds : m.memory.accumulator n = w

section

variable {m k : Machine} {i : Instruction} {a b n : Fin 8} {w : Word} {value : Number} {t : Int} {f : BitVec 24}

theorem replaceNumber_eq {change : Number → Number} (number : (m.memory.accumulator n).number = .ok value) :
    m.replaceNumber n change = m.setAccumulator n <$> wordOf (change value) := by
  simp only [replaceNumber, numberOf, number, Except.mapError, bind, Except.bind]
  cases wordOf (change value) <;> rfl

/-- The integer part is put back as an integer. -/
theorem execute_int (called : m.Calls i .int) (splits : (m.memory.accumulator i.accumulator).SplitsInto value t f) :
    m.execute i = (m.supply, (m.putting i.accumulator.val t).mapError .fault) := by
  have family : Mnemonic.extra.family = .library := rfl
  have whole : integerPart value = .integer t := by rw [integerPart, splits.truncated, Option.getD_some]
  simp only [execute, called.1, family, executeLibrary, called.2, callRoutine, plainRoutine,
    replaceNumber_eq splits.number, whole]
  rfl

/-- The fraction is put back as a real. -/
theorem execute_frac (called : m.Calls i .frac) (splits : (m.memory.accumulator i.accumulator).SplitsInto value t f) :
    m.execute i = (m.supply, .ok (m.setAccumulator i.accumulator ⟨.real, f⟩)) := by
  have family : Mnemonic.extra.family = .library := rfl
  simp only [execute, called.1, family, executeLibrary, called.2, callRoutine, plainRoutine,
    replaceNumber_eq splits.number, wordOf, splits.fraction]
  rfl

/-- The routine for the integer part leaves it if a word holds it, and faults otherwise. -/
theorem CallsOn.putsExactly (int : m.CallsOn .int n w) (splits : w.SplitsInto value t f) : m.PutsExactly n.val t := by
  obtain ⟨live, ⟨i, fetched, called, rfl⟩, rfl⟩ := int
  exact putsExactly_of_putting live fetched (execute_int called splits) (accumulator_inside m i.accumulator)
    (Text.isWritable_of_natAbs_lt splits.short)

/-- The routine for the fraction always completes. -/
theorem CallsOn.completes (frac : m.CallsOn .frac n w) (splits : w.SplitsInto value t f) :
    ∃ next, m.step = (next, none) ∧ next.memory.accumulator n = ⟨.real, f⟩ ∧
      ∀ other, n.val ≠ other → next.memory.get other = m.memory.get other := by
  obtain ⟨live, ⟨i, fetched, called, rfl⟩, rfl⟩ := frac
  exact ⟨_, step_of_completed live fetched (execute_frac called splits),
    accumulator_complete m (shownName i) i.accumulator _, fun other apart => Memory.get_set_ne m.memory apart _⟩

/-- The integer part and the fraction of a number are left exactly and add up to it. -/
theorem parts_add_up (regular : w.Regular) (frac : m.CallsOn .frac a w) (int : k.CallsOn .int b w) :
    ∃ value t f, w.number = .ok value ∧ IsIntegerPart value.toRat t ∧
      (∃ next, m.step = (next, none) ∧ next.memory.accumulator a = ⟨.real, f⟩ ∧
        ∀ other, a.val ≠ other → next.memory.get other = m.memory.get other) ∧
      |(StoredReal.decode f).toRat| < 1 ∧
      ((StoredReal.decode f).toRat = 0 ∨
        SignType.sign (StoredReal.decode f).toRat = SignType.sign value.toRat) ∧
      k.PutsExactly b.val t ∧
      t + (StoredReal.decode f).toRat = value.toRat := by
  obtain ⟨value, t, f, splits⟩ := regular.exists_splitsInto
  refine ⟨value, t, f, splits.number, splits.whole, frac.completes splits, ?_, ?_, int.putsExactly splits, ?_⟩
  · rw [splits.exact]
    exact splits.whole.remainder
  · rw [splits.exact]
    exact splits.whole.sign
  · rw [splits.exact, add_sub_cancel]

end

/-- A program that calls a routine on minus two and a half, in accumulator 1. -/
def partsMachine (call : BitVec 24) : Machine where
  memory := ⟨((Array.replicate 16 Word.zero).setIfInBounds 1 ⟨.real, 0o60040000⟩).setIfInBounds 8
    ⟨.instruction, call⟩, Nat.le_of_ble_eq_true rfl⟩
  counter := 8

/-- The parts are minus two and minus a half. -/
theorem partsMachine_minus_two_and_a_half :
    let w : Word := ⟨.real, 0o60040000⟩
    let m := partsMachine 0o77100015
    let k := partsMachine 0o77100014
    ∃ value t f, w.number = .ok value ∧ IsIntegerPart value.toRat t ∧
      (∃ next, m.step = (next, none) ∧ next.memory.accumulator 1 = ⟨.real, f⟩ ∧
        ∀ other, (1 : Fin 8).val ≠ other → next.memory.get other = m.memory.get other) ∧
      |(StoredReal.decode f).toRat| < 1 ∧
      ((StoredReal.decode f).toRat = 0 ∨
        SignType.sign (StoredReal.decode f).toRat = SignType.sign value.toRat) ∧
      k.PutsExactly (1 : Fin 8).val t ∧
      t + (StoredReal.decode f).toRat = value.toRat := by
  intro w m k
  have regular : w.Regular := .real (Or.inr (by decide))
  have frac : m.CallsOn .frac 1 w :=
    ⟨rfl, ⟨⟨.extra, 1, 0, false, 0, 13⟩, by decide +kernel, ⟨rfl, by decide +kernel⟩, rfl⟩, rfl⟩
  have int : k.CallsOn .int 1 w :=
    ⟨rfl, ⟨⟨.extra, 1, 0, false, 0, 12⟩, by decide +kernel, ⟨rfl, by decide +kernel⟩, rfl⟩, rfl⟩
  exact parts_add_up regular frac int

end Machine

end WordMachine
