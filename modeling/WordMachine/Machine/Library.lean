import WordMachine.Machine.Effect
/-!
Library routines. A call names a routine by its effective address and works on one accumulator. Functions
of a real are those of the platform's mathematical library; their values are rounded when they are stored.
-/
namespace WordMachine.Machine

open Numeric

structure RealFunction where
  name : String
  apply : Binary64 → Binary64

def squareRoot : RealFunction := ⟨"sqrt", .viaPlatform Float.sqrt⟩

/-- The natural logarithm; zero has none. -/
def logarithm : RealFunction :=
  ⟨"log", fun x => if x.isZero then .nan else .viaPlatform Float.log x⟩

def exponential : RealFunction := ⟨"exp", .viaPlatform Float.exp⟩

def sine : RealFunction := ⟨"sin", .viaPlatform Float.sin⟩

def cosine : RealFunction := ⟨"cos", .viaPlatform Float.cos⟩

def tangent : RealFunction := ⟨"tan", .viaPlatform Float.tan⟩

def arcTangent : RealFunction := ⟨"atan", .viaPlatform Float.atan⟩

def applyFunction (m : Machine) (n : Fin 8) (f : RealFunction) : Except FaultCause Effect := do
  let argument ← numberOf (m.memory.accumulator n)
  match f.apply argument.toReal with
  | .nan => throw (.noValue f.name argument)
  | .infinite _ => throw (.beyondRange f.name argument)
  | value => return m.setAccumulator n (← wordOf (.real value))

def replaceNumber (m : Machine) (n : Fin 8) (f : Number → Number) : Except FaultCause Effect := do
  let value ← numberOf (m.memory.accumulator n)
  return m.setAccumulator n (← wordOf (f value))

/-- The integer part of a number, taken toward zero. -/
def integerPart (value : Number) : Number :=
  .integer (value.truncate.getD 0)

/-- What is left of a number without its integer part, as a real. -/
def fractionPart (value : Number) : Number :=
  .real (value.sub (integerPart value)).toReal

def textOf (w : Word) : Except FaultCause String :=
  ((Charset.unpack w.bits 0).mapError fun e => .word (.charset e))

/-- Prints the accumulator: a text as it is, a number in short form. -/
def printAccumulator (m : Machine) (n : Fin 8) : Except FaultCause Effect := do
  let w := m.memory.accumulator n
  let text ← if w.tag = .text then textOf w else (·.briefText) <$> numberOf w
  return { m.goOn with print := some text }

/-- Prints the text of the accumulator; numbers are refused. -/
def printCaption (m : Machine) (n : Fin 8) : Except FaultCause Effect := do
  let w := m.memory.accumulator n
  if w.tag = .text then return { m.goOn with print := some (← textOf w) }
  else throw (.captionNeedsText w.tag)

/-- The effect of a routine that takes nothing from outside. -/
def plainRoutine (m : Machine) (n : Fin 8) : Routine → Except FaultCause Effect
  | .sqrt => m.applyFunction n squareRoot
  | .ln => m.applyFunction n logarithm
  | .exp => m.applyFunction n exponential
  | .sin => m.applyFunction n sine
  | .cos => m.applyFunction n cosine
  | .tan => m.applyFunction n tangent
  | .atn => m.applyFunction n arcTangent
  | .print => m.printAccumulator n
  | .captn => m.printCaption n
  | .line => .ok { m.goOn with print := some "\n" }
  | .page => .ok { m.goOn with print := some "\x0c" }
  | .stop => .ok { next := m.counter, halts := true }
  | .int => m.replaceNumber n integerPart
  | .frac => m.replaceNumber n fractionPart
  | .float => m.replaceNumber n fun value => .real value.toReal
  | .abs => m.replaceNumber n Number.abs
  | .read | .rnd => .ok m.goOn

def readNumber (m : Machine) (n : Fin 8) : Supply × Except Obstacle Effect :=
  let delivery := m.supply.input.next
  let result :=
    match delivery with
    | .number value _ => (m.setAccumulator n <$> wordOf value).mapError .fault
    | .exhausted _ => .error (.fault .inputExhausted)
    | .unreadable word _ => .error (.unreadable word)
  ({ m.supply with input := delivery.rest }, result)

def drawNumber (m : Machine) (n : Fin 8) : Supply × Except Obstacle Effect :=
  let (x, draws) := m.supply.draws.next
  ({ m.supply with draws }, (m.setAccumulator n <$> wordOf (.real x)).mapError .fault)

/-- Calls a routine: what is left outside, and the effect. -/
def callRoutine (m : Machine) (n : Fin 8) (r : Routine) : Supply × Except Obstacle Effect :=
  match r with
  | .read => m.readNumber n
  | .rnd => m.drawNumber n
  | other => (m.supply, (m.plainRoutine n other).mapError .fault)

def calledRoutine (m : Machine) (i : Instruction) : Except FaultCause Routine := do
  let number ← m.effectiveAddress i
  match Routine.ofNumber? number with
  | some r => return r
  | none => throw (.noRoutine number)

def executeLibrary (m : Machine) (i : Instruction) : Supply × Except Obstacle Effect :=
  match m.calledRoutine i with
  | .ok r => m.callRoutine i.accumulator r
  | .error cause => (m.supply, .error (.fault cause))

/-- Carries out an instruction: what is left outside, and the effect. -/
def execute (m : Machine) (i : Instruction) : Supply × Except Obstacle Effect :=
  let inside (result : Except FaultCause Effect) : Supply × Except Obstacle Effect :=
    (m.supply, result.mapError .fault)
  match i.mnemonic.family with
  | .accumulator => inside (m.executeAccumulator i)
  | .index => inside (m.executeIndex i)
  | .store => inside (m.executeStore i)
  | .skip => inside (m.executeSkip i)
  | .shift => inside (m.executeShift i)
  | .jump => inside (m.executeJump i)
  | .library => m.executeLibrary i

end WordMachine.Machine
