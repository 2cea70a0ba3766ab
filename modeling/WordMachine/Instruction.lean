import WordMachine.Mnemonic
import WordMachine.Text.Digit
import WordMachine.Word
/-!
Instruction words. From the highest bit down, a word holds a function code (6 bits), an accumulator (3),
an index register (3, zero for none), an indirect flag (1), a page (1) and an offset within the page (10).
`Instruction` has exactly these fields, so every one can be encoded and every instruction word decoded;
`InstructionDraft` has fields of any size and becomes an instruction only if all of them fit.
-/
namespace WordMachine

-- Powers are those of the core library, also where another library has its own.
attribute [local instance (high)] instPowNat

def pageSize : Nat := 1024

/-- An instruction whose fields fit its word. -/
structure Instruction where
  mnemonic : Mnemonic
  accumulator : Fin 8
  /-- The index register added to the address; zero for none. -/
  index : Fin 8
  indirect : Bool
  page : Fin 2
  offset : Fin 1024
  deriving DecidableEq, Repr

namespace Instruction

def indexRegister? (i : Instruction) : Option (Fin 8) :=
  if i.index = 0 then none else some i.index

def address (i : Instruction) : Nat :=
  i.page.val * pageSize + i.offset.val

/-- The instruction as a line of source: mnemonic, accumulator, and the address with a star when it is
indirect and the index register in brackets. -/
def text (i : Instruction) : String :=
  let star := if i.indirect then "*" else ""
  let brackets :=
    match i.indexRegister? with
    | none => ""
    | some n => s!"[{n.val}]"
  s!"{i.mnemonic.name} {i.accumulator.val}, {star}{i.address}{brackets}"

def pattern (i : Instruction) : Nat :=
  i.mnemonic.code * 2 ^ (18 : Nat) + i.accumulator.val * 2 ^ (15 : Nat) + i.index.val * 2 ^ (12 : Nat)
    + i.indirect.toNat * 2 ^ (11 : Nat) + i.page.val * 2 ^ (10 : Nat) + i.offset.val

def encode (i : Instruction) : Word :=
  ⟨.instruction, .ofNat 24 i.pattern⟩

def ofBits (bits : BitVec 24) : Instruction :=
  let n := bits.toNat
  { mnemonic := .ofCode (Fin.ofNat 64 (n / 2 ^ (18 : Nat)))
    accumulator := Fin.ofNat 8 (n / 2 ^ (15 : Nat))
    index := Fin.ofNat 8 (n / 2 ^ (12 : Nat))
    indirect := n / 2 ^ (11 : Nat) % 2 == 1
    page := Fin.ofNat 2 (n / 2 ^ (10 : Nat))
    offset := Fin.ofNat 1024 n }

def decode (w : Word) : Except WordError Instruction :=
  match w.tag with
  | .instruction => .ok (ofBits w.bits)
  | _ => .error (.mismatch "instruction" w.tag.describe)

theorem pattern_lt (i : Instruction) : i.pattern < 2 ^ (24 : Nat) := by
  have hm := i.mnemonic.code_lt
  have hi : i.indirect.toNat ≤ 1 := Bool.toNat_le i.indirect
  unfold pattern
  omega

end Instruction

structure FieldOverflow where
  field : String
  value : Int
  low : Int
  high : Int
  deriving DecidableEq, Repr

inductive FieldError where
  | overflow (o : FieldOverflow)
  /-- The value or a bound is too long to be written, and there is no message without it. -/
  | unwritable
  deriving DecidableEq, Repr

def FieldOverflow.isWritable (o : FieldOverflow) : Bool :=
  Text.isWritable o.value && Text.isWritable o.low && Text.isWritable o.high

def FieldOverflow.error (o : FieldOverflow) : FieldError :=
  if o.isWritable then .overflow o else .unwritable

/-- Returns the value of a field that lies between two bounds. -/
def checkField (field : String) (value low high : Int) : Except FieldError Int :=
  if low ≤ value ∧ value ≤ high then .ok value else .error (FieldOverflow.error ⟨field, value, low, high⟩)

/-- A location as page and offset; locations below zero have pages below zero. -/
def splitAddress (address : Int) : Int × Int :=
  (address.fdiv pageSize, address.fmod pageSize)

/-- An instruction whose fields may be out of range. -/
structure InstructionDraft where
  mnemonic : Mnemonic
  accumulator : Int := 0
  offset : Int := 0
  page : Int := 0
  index : Option Int := none
  indirect : Bool := false
  deriving DecidableEq, Repr

namespace InstructionDraft

/-- The instruction, if each field is in its range; otherwise the first field that is not, in the order
accumulator, index register, page, offset. -/
def check (d : InstructionDraft) : Except FieldError Instruction := do
  let accumulator ← checkField "accumulator" d.accumulator 0 7
  let index ←
    match d.index with
    | none => pure 0
    | some n => checkField "index register" n 1 7
  let page ← checkField "page" d.page 0 1
  let offset ← checkField "offset" d.offset 0 1023
  return { mnemonic := d.mnemonic
           accumulator := Fin.ofNat 8 accumulator.toNat
           index := Fin.ofNat 8 index.toNat
           indirect := d.indirect
           page := Fin.ofNat 2 page.toNat
           offset := Fin.ofNat 1024 offset.toNat }

end InstructionDraft

end WordMachine
