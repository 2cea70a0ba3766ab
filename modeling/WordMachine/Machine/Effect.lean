import WordMachine.Machine.State
import WordMachine.Vocabulary
/-!
What instructions do. Carrying out an instruction gives an effect, or the cause of a fault; the effect is
data, and the machine changes only when it is applied, so a fault leaves nothing behind. The one thing an
instruction can use up before it faults is what it takes from outside.
-/
namespace WordMachine

open Numeric

-- Powers are those of the core library, also where another library has its own.
attribute [local instance (high)] instPowNat

/-- The effect of one instruction: where to go on, at most one word written, at most one index register
set, at most one text printed, and whether the run ends. -/
structure Effect where
  next : Int
  write : Option (Nat × Word) := none
  setIndex : Option (Fin 8 × Int) := none
  print : Option String := none
  halts : Bool := false
  deriving DecidableEq, Repr

/-- Why an instruction was not completed. -/
inductive Obstacle where
  | fault (cause : FaultCause)
  /-- The input held a word that is no number. -/
  | unreadable (word : String)
  deriving DecidableEq, Repr

namespace Machine

/-! ## Operands -/

/-- The effect of an instruction that does nothing but go on. -/
def goOn (m : Machine) : Effect :=
  { next := m.counter + 1 }

def goOnWriting (m : Machine) (location : Nat) (w : Word) : Effect :=
  { m.goOn with write := some (location, w) }

def setAccumulator (m : Machine) (n : Fin 8) (w : Word) : Effect :=
  m.goOnWriting n.val w

def effectiveAddress (m : Machine) (i : Instruction) : Except FaultCause Nat :=
  ((Address.ofInstruction i).resolve m.memory m.index.toList).mapError .address

def operand (m : Machine) (i : Instruction) : Except FaultCause Word :=
  m.memory.get <$> m.effectiveAddress i

/-- The number of a word; other words than numeric ones fault. -/
def numberOf (w : Word) : Except FaultCause Number :=
  w.number.mapError .word

/-- The integer of a word; other words than integers fault. -/
def integerOf (w : Word) : Except FaultCause Int :=
  if w.tag = .integer then .ok (StoredInteger.decode w.bits) else .error (.notInteger w.tag)

/-- The word of a number; a number that no word holds faults. -/
def wordOf (n : Number) : Except FaultCause Word :=
  (Word.ofNumber n).mapError .word

def fitting (n : Int) : Except FaultCause Int :=
  if Word.fits n then .ok n else .error (.doesNotFit n)

/-! ## Operations -/

inductive Arithmetic where
  | add | subtract | multiply | divide
  deriving DecidableEq, Repr

def Arithmetic.apply (op : Arithmetic) (a b : Number) : Except FaultCause Number :=
  match op with
  | .add => .ok (a.add b)
  | .subtract => .ok (a.sub b)
  | .multiply => .ok (a.mul b)
  | .divide => if b.isZero then .error (.divisionByZero a b) else .ok (a.div b)

inductive Bitwise where
  | or | neqv | and
  deriving DecidableEq, Repr

def Bitwise.apply (op : Bitwise) (a b : BitVec 24) : BitVec 24 :=
  match op with
  | .or => a ||| b
  | .neqv => a ^^^ b
  | .and => a &&& b

def calculate (m : Machine) (i : Instruction) (op : Arithmetic) : Except FaultCause Effect := do
  let operand ← m.operand i
  let current ← numberOf (m.memory.accumulator i.accumulator)
  let result ← op.apply current (← numberOf operand)
  return m.setAccumulator i.accumulator (← wordOf result)

/-- The accumulator combined with the operand bit by bit; it keeps its tag. -/
def combine (m : Machine) (i : Instruction) (op : Bitwise) : Except FaultCause Effect := do
  let operand ← m.operand i
  let current := m.memory.accumulator i.accumulator
  return m.setAccumulator i.accumulator (current.withBits (op.apply current.bits operand.bits))

def executeAccumulator (m : Machine) (i : Instruction) : Except FaultCause Effect :=
  match i.mnemonic with
  | .nil => .ok m.goOn
  | .or => m.combine i .or
  | .neqv => m.combine i .neqv
  | .and => m.combine i .and
  | .add => m.calculate i .add
  | .subt => m.calculate i .subtract
  | .mult => m.calculate i .multiply
  | .dvd => m.calculate i .divide
  | .take => m.setAccumulator i.accumulator <$> m.operand i
  | .tneg => do
    let value ← numberOf (← m.operand i)
    return m.setAccumulator i.accumulator (← wordOf value.neg)
  | .tnot => do
    let operand ← m.operand i
    return m.setAccumulator i.accumulator (operand.withBits (~~~operand.bits))
  | other => .error (.notImplemented other)

def setIndexRegister (m : Machine) (n : Fin 8) (value : Int) : Except FaultCause Effect := do
  return { m.goOn with setIndex := some (n, ← fitting value) }

def calculateIndex (m : Machine) (i : Instruction) (op : Arithmetic) : Except FaultCause Effect := do
  let operand ← integerOf (← m.operand i)
  match ← op.apply (.integer (m.index.get i.accumulator)) (.integer operand) with
  | .integer value => m.setIndexRegister i.accumulator value
  | .real x => throw (.word (.noFit (.real x)))

/-- An index register combined with the operand bit by bit, in two's complement. -/
def combineIndex (m : Machine) (i : Instruction) (op : Bitwise) : Except FaultCause Effect := do
  let operand ← integerOf (← m.operand i)
  let bits := op.apply (.ofInt 24 (m.index.get i.accumulator)) (.ofInt 24 operand)
  m.setIndexRegister i.accumulator bits.toInt

/-- An accumulator and the index register of the same number exchanged; the accumulator must hold an
integer, and the register a value that a word holds. -/
def exchange (m : Machine) (n : Fin 8) : Except FaultCause Effect := do
  let held ← integerOf (m.memory.accumulator n)
  let word ← wordOf (.integer (m.index.get n))
  let effect ← m.setIndexRegister n held
  return { effect with write := some (n.val, word) }

def executeIndex (m : Machine) (i : Instruction) : Except FaultCause Effect :=
  match i.mnemonic with
  | .nilx => m.exchange i.accumulator
  | .orx => m.combineIndex i .or
  | .neqvx => m.combineIndex i .neqv
  | .andx => m.combineIndex i .and
  | .addx => m.calculateIndex i .add
  | .subtx => m.calculateIndex i .subtract
  | .multx => m.calculateIndex i .multiply
  | .dvdx => m.calculateIndex i .divide
  | other => .error (.notImplemented other)

def count (m : Machine) (target : Nat) (change : Int) : Except FaultCause Effect := do
  let value ← numberOf (m.memory.get target)
  return m.goOnWriting target (← wordOf (value.add (.integer change)))

def executeStore (m : Machine) (i : Instruction) : Except FaultCause Effect :=
  let current := m.memory.accumulator i.accumulator
  match i.mnemonic with
  | .put => do return m.goOnWriting (← m.effectiveAddress i) current
  | .pneg => do
    let target ← m.effectiveAddress i
    let value ← numberOf current
    return m.goOnWriting target (← wordOf value.neg)
  | .pnot => do return m.goOnWriting (← m.effectiveAddress i) (current.withBits (~~~current.bits))
  | .incr => do m.count (← m.effectiveAddress i) 1
  | .decr => do m.count (← m.effectiveAddress i) (-1)
  | other => .error (.notImplemented other)

/-! ## Comparisons, shifts and jumps -/

/-- Whether two words are equal: numeric words by value, others as words. -/
def sameWord (a b : Word) : Bool :=
  match a.number, b.number with
  | .ok x, .ok y => x.sameValue y
  | _, _ => a == b

/-- The order of two numeric words; equal when one is not-a-number. -/
def order (a b : Word) : Except FaultCause Ordering := do
  let x ← numberOf a
  let y ← numberOf b
  return (x.compare? y).getD .eq

def skipIf (m : Machine) (taken : Bool) : Effect :=
  if taken then { next := m.counter + 2 } else m.goOn

def executeSkip (m : Machine) (i : Instruction) : Except FaultCause Effect :=
  let current := m.memory.accumulator i.accumulator
  match i.mnemonic with
  | .skip => .ok (m.skipIf true)
  | .skae => do return m.skipIf (sameWord current (← m.operand i))
  | .skan => do return m.skipIf (!sameWord current (← m.operand i))
  | .skal => do return m.skipIf ((← order current (← m.operand i)) == .lt)
  | .skag => do return m.skipIf ((← order current (← m.operand i)) == .gt)
  | other => .error (.notImplemented other)

/-- An integer shifted to the left, or to the right by a negative count, rounding down. -/
def shifted (value count : Int) : Int :=
  if 0 ≤ count then value * 2 ^ count.toNat else value.fdiv (2 ^ (-count).toNat)

/-- Bits rotated to the left by a count of either sign. -/
def rotated (bits : BitVec 24) (count : Int) : BitVec 24 :=
  bits.rotateLeft (count.emod 24).toNat

def executeShift (m : Machine) (i : Instruction) : Except FaultCause Effect :=
  let current := m.memory.accumulator i.accumulator
  match i.mnemonic with
  | .shl => do
    let places ← integerOf (← m.operand i)
    let value ← integerOf current
    let result ← fitting (shifted value places)
    return m.setAccumulator i.accumulator (← wordOf (.integer result))
  | .rot => do
    let places ← integerOf (← m.operand i)
    return m.setAccumulator i.accumulator (current.withBits (rotated current.bits places))
  | other => .error (.notImplemented other)

/-- Goes on at the address if the accumulator's number satisfies a test. The address is resolved either
way. -/
def jumpIf (m : Machine) (i : Instruction) (test : Option Ordering → Bool) : Except FaultCause Effect := do
  let target ← m.effectiveAddress i
  let value ← numberOf (m.memory.accumulator i.accumulator)
  return if test (value.compare? (.integer 0)) then { next := target } else m.goOn

def executeJump (m : Machine) (i : Instruction) : Except FaultCause Effect :=
  match i.mnemonic with
  | .jump => do return { next := ← m.effectiveAddress i }
  | .jez => m.jumpIf i (· == some .eq)
  | .jnz => m.jumpIf i (· != some .eq)
  | .jlz => m.jumpIf i (· == some .lt)
  | .jgz => m.jumpIf i (· == some .gt)
  | other => .error (.notImplemented other)

end Machine

end WordMachine
