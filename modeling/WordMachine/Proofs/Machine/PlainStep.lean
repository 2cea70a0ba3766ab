import WordMachine.Proofs.Machine.Effects
import WordMachine.Proofs.Machine.StepCases
import WordMachine.Proofs.Assembly.Image
import WordMachine.Proofs.Layout.SecondPass

/-!
# Steps of plain instructions

An instruction is plain if its address is given directly, without an index register or a second word to look it up
in. What taking, adding, printing and stopping do is said here for plain instructions, in terms of the numbers
that the accumulator and the word at the address hold.
-/
namespace WordMachine

open Numeric

/-- The instruction with an accumulator and an address, and nothing that changes the address. -/
structure Instruction.Plain (i : Instruction) (mnemonic : Mnemonic) (n : Fin 8) (address : Nat) : Prop where
  mnemonic : i.mnemonic = mnemonic
  accumulator : i.accumulator = n
  index : i.indexRegister? = none
  indirect : i.indirect = false
  address : i.address = address

def Memory.Has (memory : Memory) (location : Nat) (mnemonic : Mnemonic) (n : Fin 8) (address : Nat) : Prop :=
  location < memory.size ∧ ∃ i, Instruction.decode (memory.get location) = .ok i ∧ i.Plain mnemonic n address

/-- A statement without index register and star is assembled to a plain instruction. -/
theorem plain_of_says {s : Source.Statement} {address : Nat} {i : Instruction} {n : Fin 8}
    (meaning : Says s address i) (accumulator : s.effectiveAccumulator = n.val) (index : s.index? = none)
    (indirect : s.indirect = false) : i.Plain s.mnemonic n address where
  mnemonic := meaning.mnemonic
  accumulator := Fin.ext (meaning.accumulator.trans accumulator)
  index := Option.map_eq_none_iff.mp (meaning.index.trans index)
  indirect := meaning.indirect.trans indirect
  address := Int.ofNat.inj meaning.address

def Memory.InstructionAt (memory : Memory) (location : Int) (i : Instruction) : Prop :=
  ∃ w, memory.read location = .ok w ∧ Instruction.decode w = .ok i

def Word.HoldsInteger (w : Word) (value : Int) : Prop :=
  w.number = .ok (.integer value)

theorem Word.HoldsInteger.fits {w : Word} {value : Int} (holds : w.HoldsInteger value) : Word.fits value := by
  obtain ⟨tag, bits⟩ := w
  cases tag with
  | integer =>
    cases holds
    exact Word.fits_toInt bits
  | _ => cases holds

theorem Word.HoldsInteger.tag {w : Word} {value : Int} (holds : w.HoldsInteger value) : w.tag ≠ .text := by
  rintro text
  rw [HoldsInteger, number, text] at holds
  cases holds

theorem Word.holdsInteger_of_ofInteger {value : Int} {w : Word} (made : Word.ofInteger value = .ok w) :
    w.HoldsInteger value := by
  obtain ⟨bits, encoded, rfl⟩ := map_eq_ok_iff.mp made
  unfold StoredInteger.encode at encoded
  split at encoded
  next fits =>
    cases encoded
    simp only [Word.fits, minInteger, maxInteger] at fits
    have same : (BitVec.ofInt 24 value).toInt = value := by
      rw [BitVec.toInt_ofInt]
      exact Int.bmod_eq_of_le (by omega) (by omega)
    rw [HoldsInteger, number, StoredInteger.decode, same]
  · cases encoded

namespace Machine

variable {m : Machine} {i : Instruction} {mnemonic : Mnemonic} {n : Fin 8} {address : Nat}

/-! ## Words of integers -/

theorem exists_wordOf {value : Int} (fits : Word.fits value) :
    ∃ w, wordOf (.integer value) = .ok w ∧ w.HoldsInteger value := by
  have made : Word.ofInteger value = .ok ⟨.integer, .ofInt 24 value⟩ := by
    simp [Word.ofInteger, StoredInteger.encode, fits, Functor.map, Except.map]
  refine ⟨_, ?_, Word.holdsInteger_of_ofInteger made⟩
  simp [wordOf, Word.ofNumber, made, Except.mapError]

theorem wordOf_eq_error {value : Int} (unfit : ¬ Word.fits value) :
    wordOf (.integer value) = .error (.word (.integerRange value)) := by
  simp [wordOf, Word.ofNumber, Word.ofInteger, StoredInteger.encode, unfit, Functor.map, Except.map, Except.mapError]

/-! ## Operands -/

/-- A plain instruction names its address whatever the index registers hold. -/
theorem base_of_plain (plain : i.Plain mnemonic n address) (registers : List Int) :
    (Address.ofInstruction i).base registers = .ok (address : Int) := by
  have whole : (i.page.val : Int) * pageSize + i.offset.val = address := by
    rw [← plain.address, Instruction.address]
    push_cast
    rfl
  simp [Address.base, Address.ofInstruction, plain.index, whole, pure, Except.pure]

theorem effectiveAddress_of_plain (plain : i.Plain mnemonic n address) (inside : address < m.memory.size) :
    m.effectiveAddress i = .ok address := by
  have direct := base_of_plain plain m.index.toList
  have found : m.memory.check (address : Int) = .ok address := Memory.check_eq_ok_iff.mpr ⟨rfl, inside⟩
  have flag : (Address.ofInstruction i).indirect = false := plain.indirect
  simp [effectiveAddress, Address.resolve, direct, found, flag, bind, Except.bind, pure, Except.pure, Except.mapError]

/-- The operand of a plain instruction is the word at its address. -/
theorem operand_of_plain (plain : i.Plain mnemonic n address) (inside : address < m.memory.size) :
    m.operand i = .ok (m.memory.get address) := by
  rw [operand, effectiveAddress_of_plain plain inside]
  rfl

/-! ## Instructions -/

theorem execute_take_of_operand {w : Word} (take : i.mnemonic = .take) (operand : m.operand i = .ok w) :
    m.execute i = (m.supply, .ok (m.setAccumulator i.accumulator w)) := by
  have family : Mnemonic.take.family = .accumulator := rfl
  simp only [execute, take, family, executeAccumulator, operand]
  rfl

/-- A plain load copies the word at its address. -/
theorem execute_take (plain : i.Plain .take n address) (inside : address < m.memory.size) :
    m.execute i = (m.supply, .ok (m.setAccumulator n (m.memory.get address))) :=
  plain.accumulator ▸ execute_take_of_operand plain.mnemonic (operand_of_plain plain inside)

/-- An operation on two integers puts its result into the accumulator, if there is a word of it. -/
theorem calculate_of_holds {op : Arithmetic} {a b value : Int} {w : Word}
    (current : (m.memory.accumulator i.accumulator).HoldsInteger a) (operand : m.operand i = .ok w)
    (holds : w.HoldsInteger b) (result : op.apply (.integer a) (.integer b) = .ok (.integer value)) :
    m.calculate i op = m.setAccumulator i.accumulator <$> wordOf (.integer value) := by
  rw [Word.HoldsInteger] at current holds
  simp only [calculate, operand, numberOf, current, holds, Except.mapError, bind, Except.bind, result]
  cases wordOf (.integer value) <;> rfl

/-- A plain addition puts the word of the sum into its accumulator. -/
theorem execute_add {a b : Int} (plain : i.Plain .add n address) (inside : address < m.memory.size)
    (current : (m.memory.accumulator n).HoldsInteger a) (operand : (m.memory.get address).HoldsInteger b) :
    m.execute i = (m.supply, (m.setAccumulator n <$> wordOf (.integer (a + b))).mapError .fault) := by
  have family : Mnemonic.add.family = .accumulator := rfl
  obtain rfl := plain.accumulator
  have calculated : m.calculate i .add = m.setAccumulator i.accumulator <$> wordOf (.integer (a + b)) :=
    calculate_of_holds current (operand_of_plain plain inside) operand rfl
  simp only [execute, plain.mnemonic, family, executeAccumulator, calculated]

/-- A plain call does what the routine of its address does. -/
theorem execute_call {r : Routine} (plain : i.Plain .extra n r.number) (inside : r.number < m.memory.size) :
    m.execute i = m.callRoutine n r := by
  have family : Mnemonic.extra.family = .library := rfl
  have called : m.calledRoutine i = .ok r := by
    simp [calledRoutine, effectiveAddress_of_plain plain inside, bind, Except.bind, pure, Except.pure]
  simp only [execute, plain.mnemonic, family, executeLibrary, called, plain.accumulator]

theorem callRoutine_print {value : Int} (current : (m.memory.accumulator n).HoldsInteger value) :
    m.callRoutine n .print = (m.supply, .ok { m.goOn with print := some (toString value) }) := by
  have number := current.tag
  rw [Word.HoldsInteger] at current
  simp [callRoutine, plainRoutine, printAccumulator, number, numberOf, current, Except.mapError, bind, Except.bind,
    pure, Except.pure, Functor.map, Except.map, Number.briefText]

/-! ## Steps -/

theorem fetch_of_instructionAt (stands : m.memory.InstructionAt m.counter i) : m.fetch = .ok i := by
  obtain ⟨w, read, decoded⟩ := stands
  unfold Instruction.decode at decoded
  split at decoded
  next tag =>
    cases decoded
    simp [fetch, read, tag]
  · cases decoded

theorem fetch_of_has {location : Nat} (has : m.memory.Has location mnemonic n address)
    (here : m.counter = location) : ∃ i, m.fetch = .ok i ∧ i.Plain mnemonic n address := by
  obtain ⟨inside, i, decoded, plain⟩ := has
  have read : m.memory.read m.counter = .ok (m.memory.get location) := by
    rw [Memory.read_eq (by omega), here]
    rfl
  exact ⟨i, fetch_of_instructionAt ⟨_, read, decoded⟩, plain⟩

end Machine

end WordMachine
