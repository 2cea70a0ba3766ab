/-!
The 64 function codes of the machine. A code is the position of its mnemonic in eight rows of eight, so
the six bits of a function field always name one mnemonic. Some mnemonics have no effect that the machine
implements; they can still be assembled.
-/
namespace WordMachine

/-- A function code, in the order of the codes. -/
inductive Mnemonic where
  | nil | or | neqv | and | add | subt | mult | dvd
  | take | tstr | tneg | tnot | ttyp | ttyz | tttt | tout
  | skip | skae | skan | sket | skal | skag | sked | skei
  | shl | rot | dshl | drot | powr | dmult | div | ddiv
  | nilx | orx | neqvx | andx | addx | subtx | multx | dvdx
  | put | psqu | pneg | pnot | ptyp | ptyz | pffp | pin
  | jump | jez | jnz | jat | jlz | jgz | jzd | jzi
  | decr | incr | mockp | mocks | dbyte | unused | exec | extra
  deriving DecidableEq, Repr

namespace Mnemonic

def all : List Mnemonic :=
  [.nil, .or, .neqv, .and, .add, .subt, .mult, .dvd,
   .take, .tstr, .tneg, .tnot, .ttyp, .ttyz, .tttt, .tout,
   .skip, .skae, .skan, .sket, .skal, .skag, .sked, .skei,
   .shl, .rot, .dshl, .drot, .powr, .dmult, .div, .ddiv,
   .nilx, .orx, .neqvx, .andx, .addx, .subtx, .multx, .dvdx,
   .put, .psqu, .pneg, .pnot, .ptyp, .ptyz, .pffp, .pin,
   .jump, .jez, .jnz, .jat, .jlz, .jgz, .jzd, .jzi,
   .decr, .incr, .mockp, .mocks, .dbyte, .unused, .exec, .extra]

def code (m : Mnemonic) : Nat :=
  m.ctorIdx

def ofCode (code : Fin 64) : Mnemonic :=
  all.get ⟨code.val, code.isLt⟩

def name : Mnemonic → String
  | .nil => "NIL"
  | .or => "OR"
  | .neqv => "NEQV"
  | .and => "AND"
  | .add => "ADD"
  | .subt => "SUBT"
  | .mult => "MULT"
  | .dvd => "DVD"
  | .take => "TAKE"
  | .tstr => "TSTR"
  | .tneg => "TNEG"
  | .tnot => "TNOT"
  | .ttyp => "TTYP"
  | .ttyz => "TTYZ"
  | .tttt => "TTTT"
  | .tout => "TOUT"
  | .skip => "SKIP"
  | .skae => "SKAE"
  | .skan => "SKAN"
  | .sket => "SKET"
  | .skal => "SKAL"
  | .skag => "SKAG"
  | .sked => "SKED"
  | .skei => "SKEI"
  | .shl => "SHL"
  | .rot => "ROT"
  | .dshl => "DSHL"
  | .drot => "DROT"
  | .powr => "POWR"
  | .dmult => "DMULT"
  | .div => "DIV"
  | .ddiv => "DDIV"
  | .nilx => "NILX"
  | .orx => "ORX"
  | .neqvx => "NEQVX"
  | .andx => "ANDX"
  | .addx => "ADDX"
  | .subtx => "SUBTX"
  | .multx => "MULTX"
  | .dvdx => "DVDX"
  | .put => "PUT"
  | .psqu => "PSQU"
  | .pneg => "PNEG"
  | .pnot => "PNOT"
  | .ptyp => "PTYP"
  | .ptyz => "PTYZ"
  | .pffp => "PFFP"
  | .pin => "PIN"
  | .jump => "JUMP"
  | .jez => "JEZ"
  | .jnz => "JNZ"
  | .jat => "JAT"
  | .jlz => "JLZ"
  | .jgz => "JGZ"
  | .jzd => "JZD"
  | .jzi => "JZI"
  | .decr => "DECR"
  | .incr => "INCR"
  | .mockp => "MOCKP"
  | .mocks => "MOCKS"
  | .dbyte => "DBYTE"
  | .unused => "UNUSED"
  | .exec => "EXEC"
  | .extra => "EXTRA"

theorem code_lt (m : Mnemonic) : m.code < 64 := by
  cases m <;> decide

@[simp] theorem ofCode_code (m : Mnemonic) : ofCode ⟨m.code, m.code_lt⟩ = m := by
  cases m <;> rfl

@[simp] theorem code_ofCode (c : Fin 64) : (ofCode c).code = c.val := by
  revert c; decide

/-- What a mnemonic does with its accumulator field and its operand. -/
inductive Family where
  /-- Combines an accumulator with the operand. -/
  | accumulator
  /-- Combines an index register with the operand. -/
  | index
  /-- Changes the word that the operand names. -/
  | store
  /-- Compares an accumulator with the operand, and may skip a word. -/
  | skip
  /-- Shifts an accumulator by as many places as the operand says. -/
  | shift
  /-- Continues at the operand. -/
  | jump
  /-- Calls a library routine. -/
  | library
  deriving DecidableEq, Repr

/-- The family of a mnemonic. Rows of the table go together, except in the last one. -/
def family (m : Mnemonic) : Family :=
  match m with
  | .extra => .library
  | .incr | .decr => .store
  | _ =>
    if m.code < 16 then .accumulator
    else if m.code < 24 then .skip
    else if m.code < 32 then .shift
    else if m.code < 40 then .index
    else if m.code < 48 then .store
    else if m.code < 56 then .jump
    else .accumulator

/-- Whether a constant may stand for the operand: it may where the operand is read as a value, and may
not where a location is meant. -/
def acceptsConstant (m : Mnemonic) : Bool :=
  match m.family with
  | .accumulator | .index | .skip | .shift => true
  | .store | .jump | .library => false

end Mnemonic

/-- A library routine, in the order of the numbers. -/
inductive Routine where
  | sqrt | ln | exp | read | print | sin | cos | tan | atn
  | stop | line | int | frac | float | captn | page | rnd | abs
  deriving DecidableEq, Repr

namespace Routine

def all : List Routine :=
  [.sqrt, .ln, .exp, .read, .print, .sin, .cos, .tan, .atn,
   .stop, .line, .int, .frac, .float, .captn, .page, .rnd, .abs]

/-- The number that a call names; the first routine has number 1. -/
def number (r : Routine) : Nat :=
  r.ctorIdx + 1

def ofNumber? (n : Int) : Option Routine :=
  all.find? fun r => r.number == n

def name : Routine → String
  | .sqrt => "SQRT"
  | .ln => "LN"
  | .exp => "EXP"
  | .read => "READ"
  | .print => "PRINT"
  | .sin => "SIN"
  | .cos => "COS"
  | .tan => "TAN"
  | .atn => "ATN"
  | .stop => "STOP"
  | .line => "LINE"
  | .int => "INT"
  | .frac => "FRAC"
  | .float => "FLOAT"
  | .captn => "CAPTN"
  | .page => "PAGE"
  | .rnd => "RND"
  | .abs => "ABS"

@[simp] theorem ofNumber?_number (r : Routine) : ofNumber? r.number = some r := by
  cases r <;> rfl

end Routine

end WordMachine
