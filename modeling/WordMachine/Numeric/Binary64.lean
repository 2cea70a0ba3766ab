import WordMachine.Numeric.Rounding
/-!
Binary64 numbers held exactly. A finite value is a sign, a natural significand and a power of two, so
each operation is exact arithmetic followed by one rounding, `Binary64.ofRatio`. Patterns of 64 bits
are read and written by `ofBits` and `toBits`; all patterns of not-a-number are one value here.
-/
namespace WordMachine.Numeric

-- Powers are those of the core library, also where another library has its own.
attribute [local instance (high)] instPowNat

/-- A binary64 number: `± significand · 2 ^ exponent`, an infinity, or not-a-number. -/
inductive Binary64 where
  | finite (negative : Bool) (significand : Nat) (exponent : Int)
  | infinite (negative : Bool)
  | nan
  deriving DecidableEq, Repr, Inhabited

namespace Binary64

def fractionBits : Nat := 52

/-- The exponent of the least subnormal number, and of zero. -/
def minExponent : Int := -1074

def maxExponent : Int := 971

def zero (negative : Bool) : Binary64 :=
  .finite negative 0 minExponent

/-- `2 ^ e` for an exponent at least zero, and one below. -/
def scaleUp (e : Int) : Nat := 2 ^ e.toNat

/-- `⌊log₂ (num / den)⌋` for positive `num` and `den`. -/
def floorLog2 (num den : Nat) : Int :=
  let guess : Int := (num.log2 : Int) - den.log2
  if den * scaleUp guess ≤ num * scaleUp (-guess) then guess else guess - 1

/--
The number nearest to `± num / den`, a tie going to the even significand; infinite when that lies beyond
the greatest finite number. `den` is positive.
-/
def ofRatio (negative : Bool) (num den : Nat) : Binary64 :=
  if num = 0 then zero negative
  else
    let e := max (floorLog2 num den - fractionBits) minExponent
    let q := roundDiv (num * scaleUp (-e)) (den * scaleUp e)
    let (m, e) := if q = 2 ^ (fractionBits + 1) then (2 ^ fractionBits, e + 1) else (q, e)
    if maxExponent < e then .infinite negative
    else if m = 0 then zero negative
    else .finite negative m e

/-- The number nearest to `± m · 2 ^ e`. -/
def ofScaled (negative : Bool) (m : Nat) (e : Int) : Binary64 :=
  ofRatio negative (m * scaleUp e) (scaleUp (-e))

def ofInt (n : Int) : Binary64 :=
  ofScaled (decide (n < 0)) n.natAbs 0

/--
The number nearest to `± n · 10 ^ scale`. Scales that put every digit beyond the greatest number, or
below half the least one, are decided without the power.
-/
def ofDecimal (negative : Bool) (n : Nat) (scale : Int) : Binary64 :=
  if n = 0 then zero negative
  else if 400 < scale then .infinite negative
  else if scale + digitCount n < -400 then zero negative
  else ofRatio negative (n * 10 ^ scale.toNat) (10 ^ (-scale).toNat)

/-! ## Bit patterns -/

def ofBits (bits : UInt64) : Binary64 :=
  let n := bits.toNat
  let negative := n / 2 ^ (63 : Nat) == 1
  let field : Nat := n / 2 ^ (52 : Nat) % 2 ^ (11 : Nat)
  let fraction : Nat := n % 2 ^ (52 : Nat)
  if field = 2 ^ (11 : Nat) - 1 then
    if fraction = 0 then .infinite negative else .nan
  else if field = 0 then .finite negative fraction minExponent
  else .finite negative (2 ^ (52 : Nat) + fraction) ((field : Int) + minExponent - 1)

/-- The pattern of a number in the form that `ofRatio` and `ofBits` give. -/
def toBits : Binary64 → UInt64
  | .nan => 0x7ff8000000000000
  | .infinite negative => .ofNat (negative.toNat * 2 ^ (63 : Nat) + (2 ^ (11 : Nat) - 1) * 2 ^ (52 : Nat))
  | .finite negative m e =>
    let field := if m < 2 ^ (52 : Nat) then 0 else (e - minExponent + 1).toNat
    .ofNat (negative.toNat * 2 ^ (63 : Nat) + field * 2 ^ (52 : Nat) + m % 2 ^ (52 : Nat))

/-- A number computed by a routine of the platform's mathematical library. -/
def viaPlatform (f : Float → Float) (x : Binary64) : Binary64 :=
  ofBits (f (Float.ofBits x.toBits)).toBits

/-! ## Arithmetic -/

def signed (negative : Bool) (m : Nat) : Int :=
  if negative then -(m : Int) else m

def isZero : Binary64 → Bool
  | .finite _ m _ => m == 0
  | _ => false

def isFinite : Binary64 → Bool
  | .finite .. => true
  | _ => false

def neg : Binary64 → Binary64
  | .finite negative m e => .finite (!negative) m e
  | .infinite negative => .infinite (!negative)
  | .nan => .nan

def abs : Binary64 → Binary64
  | .finite _ m e => .finite false m e
  | .infinite _ => .infinite false
  | .nan => .nan

/-- The sum; a zero sum is negative only when both terms are. -/
def add : Binary64 → Binary64 → Binary64
  | .finite na ma ea, .finite nb mb eb =>
    let e := min ea eb
    let total := signed na ma * scaleUp (ea - e) + signed nb mb * scaleUp (eb - e)
    if total = 0 then zero (na && nb) else ofScaled (decide (total < 0)) total.natAbs e
  | .nan, _ | _, .nan => .nan
  | .infinite a, .infinite b => if a = b then .infinite a else .nan
  | .infinite a, _ => .infinite a
  | _, .infinite b => .infinite b

def sub (a b : Binary64) : Binary64 :=
  add a b.neg

def mul : Binary64 → Binary64 → Binary64
  | .finite na ma ea, .finite nb mb eb => ofScaled (na != nb) (ma * mb) (ea + eb)
  | .nan, _ | _, .nan => .nan
  | .infinite a, .infinite b => .infinite (a != b)
  | .infinite a, .finite b m _ | .finite b m _, .infinite a =>
    if m = 0 then .nan else .infinite (a != b)

def div : Binary64 → Binary64 → Binary64
  | .finite na ma ea, .finite nb mb eb =>
    if mb = 0 then (if ma = 0 then .nan else .infinite (na != nb))
    else ofRatio (na != nb) (ma * scaleUp (ea - eb)) (mb * scaleUp (eb - ea))
  | .nan, _ | _, .nan => .nan
  | .infinite _, .infinite _ => .nan
  | .infinite a, .finite b _ _ => .infinite (a != b)
  | .finite a _ _, .infinite b => zero (a != b)

/-- The integer part, taken toward zero; none for an infinity or not-a-number. -/
def truncate : Binary64 → Option Int
  | .finite negative m e => some (signed negative (m * scaleUp e / scaleUp (-e)))
  | _ => none

/-- The order of two numbers by value; none when one is not-a-number. -/
def compare? : Binary64 → Binary64 → Option Ordering
  | .finite na ma ea, .finite nb mb eb =>
    let e := min ea eb
    some (compare (signed na ma * scaleUp (ea - e)) (signed nb mb * scaleUp (eb - e)))
  | .nan, _ | _, .nan => none
  | .infinite a, .infinite b => some (compare b a)
  | .infinite a, _ => some (if a then .lt else .gt)
  | _, .infinite b => some (if b then .gt else .lt)

/-- Equality by value: zeros of both signs are equal, and not-a-number equals nothing. -/
def sameValue (a b : Binary64) : Bool :=
  a.compare? b == some .eq

end Binary64

end WordMachine.Numeric
