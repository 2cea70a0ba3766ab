/-!
Numbers and names in columns: decimal numbers filled with zeros, octal digits, and text filled with
spaces.
-/
namespace WordMachine.Text

/-- An integer in decimal, filled with zeros after its sign to at least `width` characters. -/
def zeroPadded (width : Nat) (n : Int) : String :=
  let sign := if n < 0 then "-" else ""
  let digits := toString n.natAbs
  sign ++ "".pushn '0' (width - sign.length - digits.length) ++ digits

/-- A location as messages and listings show it, with at least four digits. -/
def locationText (n : Int) : String :=
  zeroPadded 4 n

/-- An integer in octal, filled with zeros after its sign to at least `width` characters. -/
def octalPadded (width : Nat) (n : Int) : String :=
  let sign := if n < 0 then "-" else ""
  let digits := String.ofList (Nat.toDigits 8 n.natAbs)
  sign ++ "".pushn '0' (width - sign.length - digits.length) ++ digits

/-- The text, filled with spaces at its end to at least `width` characters. -/
def padEnd (width : Nat) (s : String) : String :=
  s ++ "".pushn ' ' (width - s.length)

end WordMachine.Text
