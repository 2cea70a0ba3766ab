import WordMachine.Text.Digit
import WordMachine.Word
/-!
The memory of the machine: a fixed number of tagged words, of which the first eight are the
accumulators. Locations are checked on every access, and nothing wraps around.
-/
namespace WordMachine

/-- How many accumulators there are; they are the first locations. -/
def accumulatorCount : Nat := 8

/-- Locations of a full memory, which has two pages. -/
def fullMemorySize : Nat := 2048

/-- Why a location cannot be accessed. -/
inductive MemoryError where
  /-- A location that a memory of this size does not have. -/
  | outside (location : Int) (size : Int)
  /-- An index register that is not among the given ones. -/
  | noIndexRegister (number : Int) (count : Nat)
  /-- An indirect address whose word names no location. -/
  | notAnAddress (location : Nat) (size : Nat) (found : String)
  /-- A number that the message needs is too long to be written. -/
  | unwritable
  deriving DecidableEq, Repr

def MemoryError.message : MemoryError → String
  | .outside location size => s!"location {location} outside memory (0..{size - 1})"
  | .noIndexRegister number _ => s!"index register {number} does not exist"
  | .notAnAddress location _ found => s!"location {location} holds {found}, not an address"
  | .unwritable => Text.unwritableMessage

/-- Words by location; there is room for the accumulators. -/
structure Memory where
  words : Array Word
  holds_accumulators : accumulatorCount ≤ words.size

namespace Memory

def size (m : Memory) : Nat :=
  m.words.size

/-- Memory of a given size with zero everywhere; none if it would not hold the accumulators. -/
def blank? (size : Int) : Option Memory :=
  if h : accumulatorCount ≤ size.toNat then
    some ⟨Array.replicate size.toNat Word.zero, by simpa using h⟩
  else none

/-- Whether a location can be written. The size of a memory always can, and so can a location that is no
more than twice as far out. -/
def shows (m : Memory) (location : Int) : Bool :=
  Text.isWritable location || decide (location.natAbs ≤ 2 * m.size)

def check (m : Memory) (location : Int) : Except MemoryError Nat :=
  if 0 ≤ location ∧ location < m.size then .ok location.toNat
  else .error (if m.shows location then .outside location m.size else .unwritable)

/-- The word at a location; zero outside memory, where checked locations never lie. -/
def get (m : Memory) (location : Nat) : Word :=
  m.words.getD location Word.zero

def set (m : Memory) (location : Nat) (w : Word) : Memory :=
  ⟨m.words.setIfInBounds location w, by simpa using m.holds_accumulators⟩

def read (m : Memory) (location : Int) : Except MemoryError Word :=
  m.get <$> m.check location

def write (m : Memory) (location : Int) (w : Word) : Except MemoryError Memory :=
  (m.set · w) <$> m.check location

def toList (m : Memory) : List Word :=
  m.words.toList

def accumulator (m : Memory) (n : Fin 8) : Word :=
  m.get n.val

def accumulators (m : Memory) : Vector Word 8 :=
  Vector.ofFn m.accumulator

def used (m : Memory) : List (Int × Word) :=
  m.toList.zipIdx.filterMap fun (w, i) => if w = Word.zero then none else some ((i : Int), w)

/-- The words after the accumulators that are not as they were before, with their locations. -/
def changes (m before : Memory) : List (Int × Word) :=
  (m.toList.zip before.toList).zipIdx.filterMap fun ((w, old), i) =>
    if accumulatorCount ≤ i ∧ w ≠ old then some ((i : Int), w) else none

@[simp] theorem size_set (m : Memory) (i : Nat) (w : Word) : (m.set i w).size = m.size := by
  simp [size, set]

theorem get_set_self {m : Memory} {i : Nat} (h : i < m.size) (w : Word) : (m.set i w).get i = w := by
  simp only [size] at h
  simp [get, set, h]

theorem get_set_ne (m : Memory) {i j : Nat} (h : i ≠ j) (w : Word) : (m.set i w).get j = m.get j := by
  simp [get, set, Array.getD_eq_getD_getElem?, h]

theorem check_eq_ok_iff {m : Memory} {location : Int} {n : Nat} :
    m.check location = .ok n ↔ location = n ∧ n < m.size := by
  unfold check
  split
  · simp only [Except.ok.injEq]; omega
  · simp only [reduceCtorEq, false_iff]; omega

end Memory

end WordMachine
