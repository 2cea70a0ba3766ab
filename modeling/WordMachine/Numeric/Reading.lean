import WordMachine.Numeric.Number
import WordMachine.Text.Blank
import WordMachine.Text.Digit
/-!
Numbers typed as input. An integer is digits with an optional sign; a real may have a fraction and an
exponent after `e` or an at sign, or be an infinity or not-a-number by name. Digits of every script count,
white space around the number does not, and an underscore may stand between two digits. Digits beyond the
length of an integer's text are read as a real.
-/
namespace WordMachine.Numeric

namespace Reading

/-- A character of a number in its ASCII form; none for characters that no number has. -/
def plain? (c : Char) : Option Char :=
  if c.toNat < 0x7f then some c
  else if Text.isBlank c then some ' '
  else (Text.decimalValue? c).map fun n => Char.ofNat (n + '0'.toNat)

/-- White space around a number: of ASCII, the space and the characters from tabulation to carriage
return. -/
def isMargin (c : Char) : Bool :=
  c == ' ' || (0x09 ≤ c.toNat && c.toNat ≤ 0x0d)

/-- The characters without white space around them. -/
def trim (cs : List Char) : List Char :=
  ((cs.dropWhile isMargin).reverse.dropWhile isMargin).reverse

/-- Leaves out the underscores; none if some underscore does not stand between two digits. `before` is
whether a digit comes before. -/
def dropUnderscores (before : Bool) : List Char → Option (List Char)
  | [] => some []
  | '_' :: d :: rest =>
    if before && d.isDigit then (d :: ·) <$> dropUnderscores true rest else none
  | c :: rest => if c = '_' then none else (c :: ·) <$> dropUnderscores c.isDigit rest

def sign : List Char → Bool × List Char
  | '-' :: rest => (true, rest)
  | '+' :: rest => (false, rest)
  | cs => (false, cs)

/-- The value of a list of ASCII digits. -/
def natOf (digits : List Char) : Nat :=
  digits.foldl (fun n c => n * 10 + (c.toNat - '0'.toNat)) 0

def signedDigits? (cs : List Char) : Option Int :=
  let (negative, digits) := sign cs
  if digits.isEmpty || !digits.all Char.isDigit then none
  else some (if negative then -(natOf digits : Int) else natOf digits)

/-- An integer. More digits than an integer may have are left to be read as a real. -/
def integer? (cs : List Char) : Option Int :=
  if Text.maxDigits < (sign cs).2.length then none else signedDigits? cs

/-- The exponent at the end of a real; nothing stands for zero. -/
def exponent? : List Char → Option Int
  | [] => some 0
  | c :: rest => if c = 'e' ∨ c = 'E' then signedDigits? rest else none

def unsigned? (negative : Bool) (cs : List Char) : Option Binary64 :=
  let name := String.ofList (cs.map Char.toLower)
  if name = "inf" ∨ name = "infinity" then some (.infinite negative)
  else if name = "nan" then some .nan
  else
    let whole := cs.takeWhile Char.isDigit
    let rest := cs.dropWhile Char.isDigit
    let (fraction, rest) :=
      match rest with
      | '.' :: more => (more.takeWhile Char.isDigit, more.dropWhile Char.isDigit)
      | _ => ([], rest)
    if whole.isEmpty && fraction.isEmpty then none
    else
      (exponent? rest).map fun e => .ofDecimal negative (natOf (whole ++ fraction)) (e - fraction.length)

def real? (cs : List Char) : Option Binary64 :=
  let (negative, rest) := sign cs
  unsigned? negative rest

end Reading

def Number.read? (s : String) : Option Number := do
  let plain ← s.toList.mapM Reading.plain?
  let cs ← Reading.dropUnderscores false (Reading.trim plain)
  match Reading.integer? cs with
  | some n => return .integer n
  | none => .real <$> Reading.real? (cs.map fun c => if c = '@' then 'e' else c)

end WordMachine.Numeric
