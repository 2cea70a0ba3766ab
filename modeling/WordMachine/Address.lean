import WordMachine.Instruction
import WordMachine.Memory
/-!
Ways to name a location. An address has a page and an offset, and optionally an index register whose
value is added and an indirect flag. The sum must lie inside memory; if the address is indirect, the word
there is read once and gives the location, either as an integer or as the page and offset of an
instruction, and that location must lie inside memory too.
-/
namespace WordMachine

/-- The address part of an instruction, with fields of any size. -/
structure Address where
  offset : Int
  page : Int := 0
  index : Option Int := none
  indirect : Bool := false
  deriving DecidableEq, Repr

namespace Address

def ofInstruction (i : Instruction) : Address :=
  { offset := i.offset.val, page := i.page.val, index := i.indexRegister?.map (·.val)
    indirect := i.indirect }

def absolute (location : Int) (index : Option Int) (indirect : Bool) : Address :=
  let (page, offset) := splitAddress location
  { offset, page, index, indirect }

def indexValue (registers : List Int) (n : Int) : Except MemoryError Int :=
  let absent := if Text.isWritable n then .noIndexRegister n registers.length else .unwritable
  match n with
  | .ofNat k => (registers[k]?).elim (.error absent) .ok
  | .negSucc _ => .error absent

/-- The location before any indirection: page and offset, and the index register's value. -/
def base (a : Address) (registers : List Int) : Except MemoryError Int := do
  let direct := a.page * pageSize + a.offset
  match a.index with
  | none => return direct
  | some n => return direct + (← indexValue registers n)

/-- The location that the word at `location` names; its own index register and indirect flag are not
followed. -/
def follow (m : Memory) (location : Nat) : Except MemoryError Int :=
  let w := m.get location
  match w.tag with
  | .instruction => .ok (Instruction.ofBits w.bits).address
  | .integer => .ok (StoredInteger.decode w.bits)
  | .real | .text => .error (.notAnAddress location m.size w.tag.describe)

/-- The location that an address names in a memory, given the values of the index registers. -/
def resolve (a : Address) (m : Memory) (registers : List Int) : Except MemoryError Nat := do
  let location ← m.check (← a.base registers)
  if a.indirect then m.check (← follow m location) else return location

end Address

inductive Place where
  | location (n : Int)
  | accumulator (n : Int)
  /-- The location held in an index register. -/
  | index (n : Int)
  /-- The first location of a page. -/
  | page (n : Int)
  | address (a : Address)
  deriving DecidableEq, Repr

namespace Place

def resolve (p : Place) (m : Memory) (registers : List Int) : Except MemoryError Nat :=
  match p with
  | .location n | .accumulator n => m.check n
  | .index n => do m.check (← Address.indexValue registers n)
  | .page n => m.check (n * pageSize)
  | .address a => a.resolve m registers

end Place

end WordMachine
