import WordMachine.Diagnostic
import WordMachine.Vocabulary
/-!
Lines of the symbolic dialect. A line may give its location, define a label, and hold one word: an
instruction, an integer, a real, or a text of one to four characters; a comment may follow. Lines,
operands and instructions have a written form, which the parser reads back.
-/
namespace WordMachine.Source

open Numeric

inductive Constant where
  | integer (value : Int)
  | real (value : Binary64)
  | text (value : String)
  deriving DecidableEq, Repr

namespace Constant

def ofNumber : Number → Constant
  | .integer n => .integer n
  | .real x => .real x

/-- Whether two constants share a slot of the literal table: they are of one kind and equal by value. -/
def same : Constant → Constant → Bool
  | .integer a, .integer b => a == b
  | .real a, .real b => a.sameValue b
  | .text a, .text b => a == b
  | _, _ => false

def word : Constant → Except WordError Word
  | .integer n => Word.ofInteger n
  | .real x => Word.ofReal x
  | .text s => Word.ofText s

/-- The word of a constant that a word can hold. The parser admits no others; for them it is zero. -/
def stored (c : Constant) : Word :=
  c.word.toOption.getD Word.zero

/-- The constant as an operand: a text in quotes, a number with its sign. -/
def written : Constant → String
  | .text s => "\"" ++ s ++ "\""
  | .integer n => if 0 ≤ n then s!"+{n}" else s!"{n}"
  | .real x =>
    if x.compare? (.zero false) == some .lt ∨ x = .nan then x.text else "+" ++ x.text

end Constant

inductive Target where
  | label (name : String)
  | location (n : Nat)
  deriving DecidableEq, Repr

def Target.written : Target → String
  | .label name => name
  | .location n => toString n

structure AddressOperand where
  target : Target
  index : Option Nat
  indirect : Bool
  /-- Where the operand starts on its line; zero for the implied operand of a routine. -/
  column : Nat
  deriving DecidableEq, Repr

/-- The operand with a star when it is indirect, and the index register in brackets. -/
def AddressOperand.written (a : AddressOperand) : String :=
  (if a.indirect then "*" else "") ++ a.target.written
    ++ (a.index.elim "" fun n => s!"[{n}]")

inductive Operand where
  | address (a : AddressOperand)
  /-- A constant and the column where it starts. -/
  | constant (value : Constant) (column : Nat)
  deriving DecidableEq, Repr

def Operand.written : Operand → String
  | .address a => a.written
  | .constant value _ => value.written

/-- An instruction as it is written: the routine is the one whose name stands for the mnemonic. -/
structure Statement where
  mnemonic : Mnemonic
  accumulator : Option Nat
  operand : Option Operand
  routine : Option Routine
  deriving DecidableEq, Repr

namespace Statement

def defaultAccumulator : Nat := 1

def effectiveAccumulator (s : Statement) : Nat :=
  s.accumulator.getD defaultAccumulator

/-- The name that was written, in capitals and without other names of mnemonics. -/
def name (s : Statement) : String :=
  (s.routine.map Routine.name).getD s.mnemonic.name

/-- Name, accumulator with a comma, and operand, separated by spaces. -/
def written (s : Statement) : String :=
  " ".intercalate
    (s.name :: (s.accumulator.elim [] fun n => [s!"{n},"]) ++ (s.operand.elim [] fun o => [o.written]))

end Statement

inductive Content where
  | statement (s : Statement)
  | constant (value : Constant)
  deriving DecidableEq, Repr

structure Line where
  number : Int
  text : String
  location : Option Nat
  label : Option String
  content : Option Content
  comment : Option String
  file : String
  deriving DecidableEq, Repr

namespace Line

def emits (l : Line) : Bool :=
  l.content.isSome

/-- A column of the line as a site; the first column stands for columns below it. -/
def site (l : Line) (column : Nat) : Site :=
  ⟨l.file, l.number, max column 1⟩

end Line

end WordMachine.Source
