import WordMachine.Assembly
import WordMachine.Machine.Fault
import WordMachine.Machine.Supply
/-!
The state of a machine that runs a program: memory, index registers and counter, what the program takes
from outside and what it has printed, how far the run has come, and the record of executed instructions.
-/
namespace WordMachine

inductive Status where
  | ready
  | running
  /-- The program stopped at a location; a program without instructions stops nowhere. -/
  | halted (location : Option Int)
  | faulted (fault : Fault)
  | cancelled
  deriving DecidableEq, Repr

namespace Status

def isTerminal : Status → Bool
  | .ready | .running => false
  | .halted _ | .faulted _ | .cancelled => true

def name : Status → String
  | .ready => "ready"
  | .running => "running"
  | .halted _ => "halted"
  | .faulted _ => "faulted"
  | .cancelled => "cancelled"

end Status

/-- The registers at one moment. -/
structure Registers where
  accumulators : Vector Word 8
  index : Vector Int 8
  counter : Int
  deriving DecidableEq, Repr

/-- An executed instruction, with the registers before and after it. -/
structure TraceRecord where
  location : Int
  name : String
  before : Registers
  after : Registers
  deriving DecidableEq, Repr

/-- A machine. -/
structure Machine where
  memory : Memory
  index : Vector Int 8 := Vector.replicate 8 0
  /-- The location of the next instruction. -/
  counter : Int
  status : Status := .ready
  /-- How many instructions are completed. -/
  steps : Nat := 0
  supply : Supply := {}
  /-- The printed texts, in order. -/
  printed : Array String := #[]
  /-- The executed instructions in order, if they are recorded. -/
  trace : Option (Array TraceRecord) := none

namespace Machine

/-- Why a program cannot be loaded. -/
inductive LoadError where
  /-- A memory too small for the accumulators. -/
  | tooSmall (size : Int)
  | outside (error : MemoryError)
  deriving DecidableEq, Repr

def LoadError.message : LoadError → String
  | .tooSmall size =>
    if Text.isWritable size then s!"memory of {size} words cannot hold the accumulators"
    else Text.unwritableMessage
  | .outside error => error.message

def loadMemory (assembly : Assembly) (size : Int) : Except LoadError Memory :=
  match Memory.blank? size with
  | none => .error (.tooSmall size)
  | some blank =>
    (assembly.image.foldlM (fun (m : Memory) (location, w) => m.write location w) blank).mapError .outside

/-- A machine that is about to run a program. A program without instructions has ended already. -/
def load (assembly : Assembly) (size : Int) (supply : Supply) (traced : Bool) :
    Except LoadError Machine := do
  let memory ← loadMemory assembly size
  return {
    memory
    counter := assembly.entry.getD 0
    status := if assembly.entry.isSome then .ready else .halted none
    supply
    trace := if traced then some #[] else none }

def registers (m : Machine) : Registers :=
  ⟨m.memory.accumulators, m.index, m.counter⟩

def output (m : Machine) : String :=
  m.printed.foldl (· ++ ·) ""

def haltLocation (m : Machine) : Option Int :=
  match m.status with
  | .halted location => location
  | _ => none

def fault (m : Machine) : Option Fault :=
  match m.status with
  | .faulted f => some f
  | _ => none

/-- The outcome in a line of text. There is none for a program without instructions, which stopped
nowhere. -/
def summary? (m : Machine) : Option String :=
  match m.status with
  | .halted none => none
  | .halted (some location) =>
    some s!"halted at {Text.locationText location} after {m.steps} steps"
  | .faulted f => some s!"{f.message} after {m.steps} steps"
  | .cancelled => some s!"cancelled at {Text.locationText m.counter} after {m.steps} steps"
  | .ready | .running => some s!"{m.status.name} after {m.steps} steps"

end Machine

end WordMachine
