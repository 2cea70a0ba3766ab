import WordMachine.Numeric.Binary64
/-!
Decimal texts of binary64 numbers. A positive value becomes significant digits and a decimal exponent,
either the fewest digits that read back as the same number (`shortest`) or a fixed count of them
(`rounded`); a `DecimalLayout` then says how digits and exponent are written.
-/
namespace WordMachine.Numeric

-- Powers are those of the core library, also where another library has its own.
attribute [local instance (high)] instPowNat

/-- The value `0.d₁d₂… · 10 ^ (point)`, where `d₁d₂…` are the digits of `digits`. -/
structure Decimal where
  digits : Nat
  point : Int
  deriving DecidableEq, Repr

namespace Decimal

/-- The power of ten that puts the value `num / den` into `[10 ^ (p - 1), 10 ^ p)`. -/
def pointOf (num den : Nat) : Int :=
  if den ≤ num then digitCount (num / den)
  else 1 - (digitCount ((den - 1) / num) : Int)

/-- `num / den` in units of `10 ^ e`, as a quotient. -/
def inUnits (num den : Nat) (e : Int) : Nat × Nat :=
  (num * 10 ^ (-e).toNat, den * 10 ^ e.toNat)

/-- The value without the zeros that end its digits. -/
def strip (d : Decimal) : Decimal :=
  ⟨go d.digits (digitCount d.digits), d.point⟩
where
  /-- Drops at most `fuel` zeros. -/
  go (n : Nat) : Nat → Nat
    | 0 => n
    | fuel + 1 => if n % 10 = 0 then go (n / 10) fuel else n

/-- The value with `count` significant digits nearest to `num / den`, a tie going to the even digit. -/
def rounded (count : Nat) (num den : Nat) : Decimal :=
  let point := pointOf num den
  let (a, b) := inUnits num den (point - count)
  let n := roundDiv a b
  if n = 10 ^ count then ⟨1, point + 1⟩ else ⟨n, point⟩

/-- The nearer of the two values with `count` digits next to `num / den` that satisfies `reads`. -/
def neighbour? (reads : Nat → Int → Bool) (num den count : Nat) : Option Decimal :=
  let point := pointOf num den
  let e := point - count
  let (a, b) := inUnits num den e
  let below := a / b
  let nearest := roundDiv a b
  let other := if nearest = below then below + 1 else below
  let found := if reads nearest e then some nearest else if reads other e then some other else none
  found.map fun n => if n = 10 ^ count then ⟨1, point + 1⟩ else ⟨n, point⟩

/--
The fewest significant digits that read back as `x`, of those the nearest ones. Seventeen digits always
read back, so the last resort is not reached.
-/
def shortest (x : Binary64) (num den : Nat) : Decimal :=
  let reads (n : Nat) (e : Int) : Bool := (Binary64.ofDecimal false n e).sameValue x
  ((List.range 17).findSome? fun count => neighbour? reads num den (count + 1)).getD
    (rounded 17 num den)

end Decimal

/-- How digits and a decimal exponent are written. -/
structure DecimalLayout where
  /-- Exponents at least this are written positionally, -/
  positionalFrom : Int
  /-- if they are also below this. -/
  positionalBelow : Int
  /-- Whether a whole number in positional form ends in `.0`. -/
  marksWhole : Bool
  deriving DecidableEq, Repr

namespace DecimalLayout

def zeros (n : Nat) : String :=
  "".pushn '0' n

/-- Exponent digits, at least two, after a sign. -/
def exponentText (e : Int) : String :=
  let digits := toString e.natAbs
  (if e < 0 then "e-" else "e+") ++ (if digits.length < 2 then "0" ++ digits else digits)

def write (layout : DecimalLayout) (d : Decimal) : String :=
  let digits := toString d.digits
  let e := d.point - 1
  if layout.positionalFrom ≤ e ∧ e < layout.positionalBelow then
    if d.point ≤ 0 then "0." ++ zeros (-d.point).toNat ++ digits
    else if digits.length ≤ d.point.toNat then
      digits ++ zeros (d.point.toNat - digits.length) ++ (if layout.marksWhole then ".0" else "")
    else
      String.ofList (digits.toList.take d.point.toNat) ++ "."
        ++ String.ofList (digits.toList.drop d.point.toNat)
  else
    let tail := String.ofList (digits.toList.drop 1)
    String.ofList (digits.toList.take 1) ++ (if tail.isEmpty then "" else "." ++ tail) ++ exponentText e

end DecimalLayout

namespace Binary64

/-- A number as text, its positive finite magnitude written by `positive`. -/
def writeWith (layout : DecimalLayout) (positive : Binary64 → Nat → Nat → Decimal) :
    Binary64 → String
  | .nan => "nan"
  | .infinite negative => if negative then "-inf" else "inf"
  | .finite negative m e =>
    let magnitude :=
      if m = 0 then (if layout.marksWhole then "0.0" else "0")
      else layout.write (positive (.finite false m e) (m * scaleUp e) (scaleUp (-e)))
    if negative then "-" ++ magnitude else magnitude

/-- Full texts are positional for exponents -4 to 15, and a whole number keeps a fraction `.0`. -/
def fullLayout : DecimalLayout := ⟨-4, 16, true⟩

/-- Short texts have six digits, and are positional for exponents -4 to 5. -/
def briefLayout : DecimalLayout := ⟨-4, 6, false⟩

/-- The shortest text that reads back as the number: `0.1`, `2.0`, `1e+20`. -/
def text (x : Binary64) : String :=
  x.writeWith fullLayout fun x num den => (Decimal.shortest x num den).strip

/-- The number to six significant digits, without the zeros that end them: `0.333333`, `2`, `1e+20`. -/
def briefText (x : Binary64) : String :=
  x.writeWith briefLayout fun _ num den => (Decimal.rounded 6 num den).strip

end Binary64

end WordMachine.Numeric
