import WordMachine.Source.Line
/-!
Lines of the legacy dialect. Every line names its location and holds one word; free text may follow it.
Operands have a written form, which the parser reads back.
-/
namespace WordMachine.Legacy

open Numeric

inductive Target where
  | label (name : String)
  | location (n : Nat)
  /-- A number of locations past the base of the program. -/
  | relative (n : Nat)
  deriving DecidableEq, Repr

def Target.written : Target → String
  | .label name => name
  | .location n => toString n
  | .relative n => s!"{n}+"

/-- An address without an index. -/
structure SimpleAddress where
  target : Target
  indirect : Bool
  deriving DecidableEq, Repr

def SimpleAddress.written (a : SimpleAddress) : String :=
  (if a.indirect then "*" else "") ++ a.target.written

/-- An address, perhaps with an index. -/
structure IndexedAddress where
  address : SimpleAddress
  index : Option Nat
  deriving DecidableEq, Repr

namespace IndexedAddress

def written (a : IndexedAddress) : String :=
  a.address.written ++ a.index.elim "" fun n => s!":{n}"

/-- The location that the address names, given the locations of labels and the base of the program. -/
def location (a : IndexedAddress) (labels : List (String × Int)) (base : Int) : Except Cause Int :=
  match a.address.target with
  | .location n => .ok n
  | .relative n => .ok (base + n)
  | .label name => (labels.lookup name).elim (.error (.undefinedLabel name [])) .ok

end IndexedAddress

/-- A word given by eight octal digits, after a letter that says how to read them. -/
structure OctalWord where
  designator : Char
  bits : Nat
  deriving DecidableEq, Repr

def OctalWord.written (w : OctalWord) : String :=
  s!"({w.designator}{Text.octalPadded 8 w.bits})"

inductive Constant where
  | integer (value : Int)
  | real (value : Binary64)
  | text (value : String)
  | octal (word : OctalWord)
  deriving DecidableEq, Repr

namespace Constant

def ofNumber : Number → Constant
  | .integer n => .integer n
  | .real x => .real x

/-- A sign before a number's text, unless it has one. -/
private def signed (text : String) : String :=
  if text.toList.head? = some '-' then text else "+" ++ text

/-- The constant as an operand: a text in angle brackets, a number with its sign. -/
def written : Constant → String
  | .integer n => signed (toString n)
  | .real x => signed x.text
  | .text s => "<" ++ s ++ ">"
  | .octal w => w.written

end Constant

inductive Operand where
  | address (a : IndexedAddress)
  | constant (c : Constant)
  deriving DecidableEq, Repr

def Operand.written : Operand → String
  | .address a => a.written
  | .constant c => c.written

inductive LoadOperand where
  | address (a : SimpleAddress)
  | constant (c : Constant)
  deriving DecidableEq, Repr

def LoadOperand.written : LoadOperand → String
  | .address a => a.written
  | .constant c => c.written

inductive Content where
  | integer (value : Int)
  | real (value : Binary64)
  | text (value : String)
  | octal (word : OctalWord)
  | take (mnemonic : String) (accumulator : Option Nat) (operand : Operand)
  | put (mnemonic : String) (accumulator : Option Nat) (operand : IndexedAddress)
  | loadNumber (accumulator : Option Nat) (operand : SimpleAddress) (index : Nat)
  | loadRegister (accumulator : Option Nat) (operand : LoadOperand) (index : Nat)
  | library (mnemonic : String)
  deriving DecidableEq, Repr

structure Line where
  number : Int
  text : String
  location : Nat
  content : Content
  /-- What follows the word; empty if nothing does. -/
  comment : String
  file : String
  deriving DecidableEq, Repr

end WordMachine.Legacy
