/-!
Capital letters, as far as names of the instruction set need them. A name is compared in capitals; the
only characters outside ASCII whose capitals are letters of ASCII are the ten listed here.
-/
namespace WordMachine.Text

/-- The capitals of a character, as far as they are ASCII. -/
def capitals (c : Char) : List Char :=
  match c.toNat with
  | 0xdf => ['S', 'S']
  | 0x131 => ['I']
  | 0x17f => ['S']
  | 0xfb00 => ['F', 'F']
  | 0xfb01 => ['F', 'I']
  | 0xfb02 => ['F', 'L']
  | 0xfb03 => ['F', 'F', 'I']
  | 0xfb04 => ['F', 'F', 'L']
  | 0xfb05 => ['S', 'T']
  | 0xfb06 => ['S', 'T']
  | _ => [c.toUpper]

def capitalised (s : String) : String :=
  String.ofList (s.toList.flatMap capitals)

/-- The text in small letters, which leaves every character outside ASCII as it is. -/
def inSmallLetters (s : String) : String :=
  String.ofList (s.toList.map Char.toLower)

end WordMachine.Text
