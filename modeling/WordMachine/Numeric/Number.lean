import WordMachine.Numeric.Decimal
/-!
The numbers a program computes with: integers of any size, and binary64 reals. Operations on two
integers stay exact; any other mixture is carried out on reals.
-/
namespace WordMachine.Numeric

inductive Number where
  | integer (value : Int)
  | real (value : Binary64)
  deriving DecidableEq, Repr, Inhabited

namespace Number

/-- The number as a real. -/
def toReal : Number → Binary64
  | .integer n => .ofInt n
  | .real x => x

/-- Carries out an operation on two integers, or else on two reals. -/
def arith (onInt : Int → Int → Int) (onReal : Binary64 → Binary64 → Binary64) : Number → Number → Number
  | .integer a, .integer b => .integer (onInt a b)
  | a, b => .real (onReal a.toReal b.toReal)

def add : Number → Number → Number := arith (· + ·) .add

def sub : Number → Number → Number := arith (· - ·) .sub

def mul : Number → Number → Number := arith (· * ·) .mul

def neg : Number → Number
  | .integer n => .integer (-n)
  | .real x => .real x.neg

def abs : Number → Number
  | .integer n => .integer n.natAbs
  | .real x => .real x.abs

/-- The quotient of a divisor that is not zero; an integer quotient is taken toward zero. -/
def div : Number → Number → Number := arith Int.tdiv .div

/-- The order by value, exact also between an integer and a real; none for not-a-number. -/
def compare? : Number → Number → Option Ordering
  | .integer a, .integer b => some (compare a b)
  | .integer a, .real y => Binary64.compare? (.finite (decide (a < 0)) a.natAbs 0) y
  | .real x, .integer b => x.compare? (.finite (decide (b < 0)) b.natAbs 0)
  | .real x, .real y => x.compare? y

def sameValue (a b : Number) : Bool :=
  a.compare? b == some .eq

def isZero : Number → Bool
  | .integer n => n == 0
  | .real x => x.isZero

/-- The integer part, taken toward zero. -/
def truncate : Number → Option Int
  | .integer n => some n
  | .real x => x.truncate

/-- The number in full: an integer's digits, or the shortest text that reads back as the real. -/
def text : Number → String
  | .integer n => toString n
  | .real x => x.text

/-- The number as a program prints it: an integer's digits, or a real to six significant digits. -/
def briefText : Number → String
  | .integer n => toString n
  | .real x => x.briefText

end Number

end WordMachine.Numeric
