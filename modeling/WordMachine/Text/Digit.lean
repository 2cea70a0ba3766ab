import WordMachine.Text.Quoted
/-!
Digits, as Unicode 14 has them. Decimal digits come in blocks of ten code points, one block per script, and
have a value. Other characters are digits as well, such as superscripts and circled digits, but no numeral
is written with them.
-/
namespace WordMachine.Text

-- Powers are those of the core library, also where another library has its own.
attribute [local instance (high)] instPowNat

private def zeroDigits : List Nat :=
  [0x30, 0x660, 0x6f0, 0x7c0, 0x966, 0x9e6, 0xa66, 0xae6, 0xb66, 0xbe6, 0xc66, 0xce6, 0xd66, 0xde6,
   0xe50, 0xed0, 0xf20, 0x1040, 0x1090, 0x17e0, 0x1810, 0x1946, 0x19d0, 0x1a80, 0x1a90, 0x1b50,
   0x1bb0, 0x1c40, 0x1c50, 0xa620, 0xa8d0, 0xa900, 0xa9d0, 0xa9f0, 0xaa50, 0xabf0, 0xff10, 0x104a0,
   0x10d30, 0x11066, 0x110f0, 0x11136, 0x111d0, 0x112f0, 0x11450, 0x114d0, 0x11650, 0x116c0,
   0x11730, 0x118e0, 0x11950, 0x11c50, 0x11d50, 0x11da0, 0x16a60, 0x16ac0, 0x16b50,
   0x1d7ce, 0x1d7d8, 0x1d7e2, 0x1d7ec, 0x1d7f6, 0x1e140, 0x1e2f0, 0x1e950, 0x1fbf0]

private def valuelessDigits : List (Nat × Nat) :=
  [(0xb2, 0xb3), (0xb9, 0xb9), (0x1369, 0x1371), (0x19da, 0x19da), (0x2070, 0x2070), (0x2074, 0x2079),
   (0x2080, 0x2089), (0x2460, 0x2468), (0x2474, 0x247c), (0x2488, 0x2490), (0x24ea, 0x24ea),
   (0x24f5, 0x24fd), (0x24ff, 0x24ff), (0x2776, 0x277e), (0x2780, 0x2788), (0x278a, 0x2792),
   (0x10a40, 0x10a43), (0x10e60, 0x10e68), (0x11052, 0x1105a), (0x1f100, 0x1f10a)]

/-- The value of a decimal digit of any script. -/
def decimalValue? (c : Char) : Option Nat :=
  if c.toNat < 0x80 then
    if '0' ≤ c ∧ c ≤ '9' then some (c.toNat - '0'.toNat) else none
  else
    (zeroDigits.find? fun first => first ≤ c.toNat && c.toNat < first + 10).map (c.toNat - ·)

/-- Whether the character is a digit, with a decimal value or without. -/
def isDigit (c : Char) : Bool :=
  (decimalValue? c).isSome || valuelessDigits.any fun (first, last) => first ≤ c.toNat && c.toNat ≤ last

/-- The number that a list of decimal digits writes; none if some character has no decimal value. -/
def natOfDigits? (cs : List Char) : Option Nat :=
  cs.foldl (fun n? c => do return (← n?) * 10 + (← decimalValue? c)) (some 0)

/-! ## Integers of any length

The decimal text of an integer has a limited length, whether it is read or written. -/

/-- The most digits in the decimal text of an integer. -/
def maxDigits : Nat := 4300

/-- Why a list of digits is not read as an integer. -/
inductive NumeralError where
  /-- Some digit has no decimal value. -/
  | valueless (numeral : String)
  | tooLong (digits : Nat)
  deriving DecidableEq, Repr

/-- What is said about a numeral that is not read. One with a digit without a value is shown quoted, and at
most two hundred characters of it. -/
def NumeralError.message : NumeralError → String
  | .valueless numeral =>
    let shown := String.ofList ((quoted numeral).toList.take 200)
    s!"invalid literal for int() with base 10: {shown}"
  | .tooLong digits =>
    s!"Exceeds the limit ({maxDigits} digits) for integer string conversion: value has {digits} digits; "
      ++ "use sys.set_int_max_str_digits() to increase the limit"

/-- The integer that a list of digits writes. Digits are counted up to the first one without a value. -/
def readNumeral (cs : List Char) : Except NumeralError Nat :=
  let digits := (cs.takeWhile fun c => (decimalValue? c).isSome).length
  if maxDigits < digits then .error (.tooLong digits)
  else
    match natOfDigits? cs with
    | some n => .ok n
    | none => .error (.valueless (String.ofList cs))

/-- Whether the decimal text of an integer is short enough to be written. -/
def isWritable (n : Int) : Bool :=
  n.natAbs < 10 ^ maxDigits

/-- What is said when an integer is not written. -/
def unwritableMessage : String :=
  s!"Exceeds the limit ({maxDigits} digits) for integer string conversion; "
    ++ "use sys.set_int_max_str_digits() to increase the limit"

theorem isDigit_of_decimalValue {c : Char} {n : Nat} (h : decimalValue? c = some n) :
    isDigit c = true := by
  simp [isDigit, h]

end WordMachine.Text
