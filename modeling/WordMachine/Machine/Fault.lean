import WordMachine.Address
import WordMachine.Text.Digit
/-!
Faults: why an instruction cannot be carried out. A fault ends the run, and the instruction leaves no
effect.
-/
namespace WordMachine

open Numeric

inductive FaultKind where
  | invalidAddress | divisionByZero | unknownMnemonic | registerOutOfRange | wordTypeMismatch
  | inputExhausted
  deriving DecidableEq, Repr

namespace FaultKind

def all : List FaultKind :=
  [.invalidAddress, .divisionByZero, .unknownMnemonic, .registerOutOfRange, .wordTypeMismatch,
   .inputExhausted]

def text : FaultKind → String
  | .invalidAddress => "invalid address"
  | .divisionByZero => "division by zero"
  | .unknownMnemonic => "unknown mnemonic"
  | .registerOutOfRange => "register out of range"
  | .wordTypeMismatch => "word type mismatch"
  | .inputExhausted => "input exhausted"

end FaultKind

/-- Why an instruction cannot be carried out. -/
inductive FaultCause where
  | address (error : MemoryError)
  /-- The counter is at a word that is no instruction. -/
  | executingData (found : Tag) (location : Int)
  /-- A word of the wrong kind, a code without a character, or a result that no word holds. -/
  | word (error : WordError)
  | notImplemented (mnemonic : Mnemonic)
  | noRoutine (number : Nat)
  | divisionByZero (dividend divisor : Number)
  /-- An integer result of more than 24 bits. -/
  | doesNotFit (value : Int)
  | notInteger (found : Tag)
  | captionNeedsText (found : Tag)
  /-- A function has no value for its argument. -/
  | noValue (function : String) (argument : Number)
  /-- The value of a function is beyond every real. -/
  | beyondRange (function : String) (argument : Number)
  | inputExhausted
  /-- A fault described by its kind and reason. -/
  | described (kind : FaultKind) (reason : String)
  deriving DecidableEq, Repr

namespace FaultCause

def kind : FaultCause → FaultKind
  | .address _ | .executingData .. => .invalidAddress
  | .word (.mismatch ..) | .word (.charset _) => .wordTypeMismatch
  | .word _ => .registerOutOfRange
  | .notImplemented _ | .noRoutine _ => .unknownMnemonic
  | .divisionByZero .. => .divisionByZero
  | .doesNotFit _ | .noValue .. | .beyondRange .. => .registerOutOfRange
  | .notInteger _ | .captionNeedsText _ => .wordTypeMismatch
  | .inputExhausted => .inputExhausted
  | .described kind _ => kind

def reason : FaultCause → String
  | .address error => error.message
  | .executingData found location =>
    s!"executing {found.describe} at {Text.locationText location}"
  | .word error => error.message
  | .notImplemented mnemonic => s!"{mnemonic.name} is not implemented"
  | .noRoutine number => s!"no library routine {number}"
  | .divisionByZero a b => s!"{a.text} / {b.text}"
  | .doesNotFit value => s!"{value} does not fit in 24 bits"
  | .notInteger found => s!"expected integer data, found {found.describe}"
  | .captionNeedsText found => s!"CAPTN needs string data, found {found.describe}"
  | .noValue function argument => s!"{function}({argument.text}): math domain error"
  | .beyondRange function argument => s!"{function}({argument.text}): math range error"
  | .inputExhausted => "READ with no input left"
  | .described _ reason => reason

/-- Whether the reason can be written: an integer it shows may be too long. Only locations, shifted integers
and integers from outside are of any length. -/
def isWritable : FaultCause → Bool
  | .doesNotFit value | .word (.integerRange value) => Text.isWritable value
  | .address .unwritable => false
  | _ => true

end FaultCause

/-- A fault: its cause, the location and the name of the instruction, and how many were completed before.
There is no name when no instruction could be fetched. -/
structure Fault where
  cause : FaultCause
  location : Int
  name : Option String
  steps : Int
  deriving DecidableEq, Repr

def Fault.message (f : Fault) : String :=
  let name := f.name.elim "" fun n => if n.isEmpty then "" else s!" ({n})"
  s!"fault at {Text.locationText f.location}{name}: {f.cause.kind.text}: {f.cause.reason}"

end WordMachine
