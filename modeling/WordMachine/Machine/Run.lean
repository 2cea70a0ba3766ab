import WordMachine.Machine.Library
/-!
Running a machine: single steps, and runs up to a limit on the number of completed steps. A step completes
one instruction, or ends the run with a fault. A run that has ended is not taken up again. Two things break
a run off without ending it: an input word that is no number, and a fault whose reason is too long to be
written.
-/
namespace WordMachine

/-- Why a step or a run was not carried out. -/
inductive Trouble where
  | fault (f : Fault)
  /-- The run had ended, and a single step was asked for. -/
  | cannotStep (status : Status)
  /-- The run had ended, and a run was asked for. -/
  | alreadyEnded (status : Status)
  /-- The input held a word that is no number. -/
  | unreadable (word : String)
  /-- A fault whose reason is too long to be written. -/
  | unwritable
  deriving DecidableEq, Repr

def Trouble.message : Trouble → String
  | .fault f => f.message
  | .cannotStep status => s!"cannot step: run {status.name}"
  | .alreadyEnded status => s!"run already {status.name}"
  | .unreadable word => s!"input {Text.quoted word} is not a number"
  | .unwritable => Text.unwritableMessage

namespace Machine

def fetch (m : Machine) : Except FaultCause Instruction :=
  match m.memory.read m.counter with
  | .error e => .error (.address e)
  | .ok w =>
    match w.tag with
    | .instruction => .ok (.ofBits w.bits)
    | found => .error (.executingData found m.counter)

/-- The name of an instruction in traces and faults. A call shows its routine if its address is given
directly. -/
def shownName (i : Instruction) : String :=
  let isPlain := i.indexRegister?.isNone && !i.indirect
  Vocabulary.shownName i.mnemonic (if isPlain then i.address else 0)

/-- The machine after an effect, without the count of steps and the trace. -/
def apply (m : Machine) (e : Effect) : Machine :=
  { m with
    memory := e.write.elim m.memory fun (location, w) => m.memory.set location w
    index := e.setIndex.elim m.index fun (n, value) => m.index.set n value
    printed := e.print.elim m.printed m.printed.push
    counter := e.next
    status := if e.halts then .halted (some m.counter) else .running }

/-- The machine after a completed instruction. -/
def complete (m : Machine) (name : String) (e : Effect) : Machine :=
  let after := m.apply e
  { after with
    steps := m.steps + 1
    trace := m.trace.map (·.push ⟨m.counter, name, m.registers, after.registers⟩) }

/-- The machine after a step that something other than a fault kept from being completed. -/
def interruptedBy (m : Machine) (trouble : Trouble) : Machine × Option Trouble :=
  ({ m with status := .running }, some trouble)

/-- The machine after a fault. One whose reason cannot be written does not end the run. -/
def faultWith (m : Machine) (cause : FaultCause) (name : Option String) : Machine × Option Trouble :=
  let f : Fault := ⟨cause, m.counter, name, m.steps⟩
  if cause.isWritable then ({ m with status := .faulted f }, some (.fault f))
  else m.interruptedBy .unwritable

/-- One step, if the run has not ended. -/
def step (m : Machine) : Machine × Option Trouble :=
  if m.status.isTerminal then (m, some (.cannotStep m.status))
  else
    match m.fetch with
    | .error cause => m.faultWith cause none
    | .ok i =>
      let (supply, result) := m.execute i
      let m := { m with supply }
      match result with
      | .ok effect => (m.complete (shownName i) effect, none)
      | .error (.fault cause) => m.faultWith cause (some (shownName i))
      | .error (.unreadable word) => m.interruptedBy (.unreadable word)

/-- `count` single steps; fewer if something is in the way, such as the end of the run. -/
def stepTimes : Machine → Nat → Machine × Option Trouble
  | m, 0 => (m, none)
  | m, count + 1 =>
    match m.step with
    | (m, some trouble) => (m, some trouble)
    | (m, none) => stepTimes m count

/-- At most `count` steps; fewer if the run ends, or something is in the way. -/
def advance : Nat → Machine → Machine × Option Trouble
  | 0, m => (m, none)
  | count + 1, m =>
    if m.status.isTerminal then (m, none)
    else
      match m.step with
      | (m, some trouble) => (m, some trouble)
      | (m, none) => advance count m

/-- Whether the program has no instructions; such a machine can be run again and again. -/
def isEmpty (m : Machine) : Bool :=
  m.status == .halted none

/-- Runs until the program ends, or until `limit` steps are completed, which cancels the run. -/
def run (limit : Nat) (m : Machine) : Machine × Option Trouble :=
  if m.isEmpty then (m, none)
  else if m.status.isTerminal then (m, some (.alreadyEnded m.status))
  else
    let (m, trouble) := m.advance (limit - m.steps)
    if trouble.isNone && !m.status.isTerminal then ({ m with status := .cancelled }, none)
    else (m, trouble)

/-- Runs until the program ends, or until `limit` steps are completed, if there is a limit. There is no
result if that takes more than `patience` steps. -/
def runPatiently? (patience : Nat) (limit : Option Nat) (m : Machine) : Option (Machine × Option Trouble) :=
  let budget := m.steps + patience
  match limit with
  | some n => if n ≤ budget then some (m.run n) else finished? (m.run budget)
  | none => finished? (m.run budget)
where
  /-- The result of a run that was not cancelled. -/
  finished? (result : Machine × Option Trouble) : Option (Machine × Option Trouble) :=
    if result.1.status = .cancelled ∧ result.2.isNone then none else some result

end Machine

end WordMachine
