import WordMachine.Charset
import WordMachine.Numeric.Number
/-!
Words of 24 bits. A word carries a tag that says how its bits are read: as an instruction, as an integer
in two's complement, as a real in the machine's own layout, or as four characters. Reading a word under
another tag is an error and never reinterprets the bits.

A real has a sign bit, seven bits of exponent with bias 63, and sixteen bits of fraction after a leading
one. All bits zero stand for zero; magnitudes that round to less than `2 ^ -62` are stored as zero, and
magnitudes that round to `2 ^ 65` or more do not fit.
-/
namespace WordMachine

open Numeric

-- Powers are those of the core library, also where another library has its own.
attribute [local instance (high)] instPowNat

inductive Tag where
  | instruction | integer | real | text
  deriving DecidableEq, Repr

def Tag.describe : Tag → String
  | .instruction => "instruction"
  | .integer => "integer data"
  | .real => "float data"
  | .text => "string data"

/-- A tagged word. -/
structure Word where
  tag : Tag
  bits : BitVec 24
  deriving DecidableEq, Repr

/-- Why a word cannot be made or read. -/
inductive WordError where
  /-- An integer that needs more than 24 bits. -/
  | integerRange (value : Int)
  /-- An infinity or not-a-number. -/
  | unstorable (value : Binary64)
  /-- A real of too great a magnitude. -/
  | realTooLarge (value : Binary64)
  /-- Bits given directly that do not fit in a word. -/
  | rawBits (value : Int)
  /-- A value that does not fit, for no more particular reason. -/
  | noFit (value : Number)
  /-- A word of another kind than the expected one. -/
  | mismatch (expected found : String)
  /-- Text outside the character set, or codes without a character. -/
  | charset (error : CharsetError)
  /-- More characters than one word holds. -/
  | tooLong (length : Nat)
  /-- A data word without a format. -/
  | missingFormat
  /-- An instruction word with a data format. -/
  | strayFormat
  deriving DecidableEq, Repr

namespace Word

def minInteger : Int := -(2 ^ (23 : Nat))

def maxInteger : Int := 2 ^ (23 : Nat) - 1

def fits (n : Int) : Prop := minInteger ≤ n ∧ n ≤ maxInteger

instance (n : Int) : Decidable (fits n) := inferInstanceAs (Decidable (_ ∧ _))

theorem natAbs_le_of_fits {n : Int} (held : fits n) : n.natAbs ≤ 2 ^ (23 : Nat) := by
  simp only [fits, minInteger, maxInteger] at held
  omega

theorem fits_toInt (bits : BitVec 24) : fits bits.toInt := by
  have low := BitVec.le_toInt bits
  have high := BitVec.toInt_lt (x := bits)
  simp only [fits, minInteger, maxInteger]
  omega

end Word

def WordError.message : WordError → String
  | .integerRange n => s!"integer {n} outside word range {Word.minInteger}..{Word.maxInteger}"
  | .unstorable x => s!"float {x.text} cannot be stored"
  | .realTooLarge x => s!"float {x.text} too large for a word"
  | .rawBits n => s!"raw bits {Text.octalPadded 1 n} exceed 24 bits"
  | .noFit value => s!"value {value.text} does not fit in a word"
  | .mismatch expected found => s!"word type mismatch: expected {expected}, found {found}"
  | .charset e => e.message
  | .tooLong length =>
    s!"cannot pack {length} characters into one word (maximum {Charset.charsPerWord})"
  | .missingFormat => "data words need a format"
  | .strayFormat => "instruction words have no data format"

/-! ## Number codecs -/

namespace StoredInteger

/-- The two's complement of an integer that fits. -/
def encode (n : Int) : Except WordError (BitVec 24) :=
  if Word.fits n then .ok (.ofInt 24 n) else .error (.integerRange n)

def decode (bits : BitVec 24) : Int :=
  bits.toInt

end StoredInteger

namespace StoredReal

def fractionBits : Nat := 16

/-- What is added to an exponent before it is stored. -/
def bias : Int := 63

def maxField : Int := 127

/-- The exponent and the fraction of `m · 2 ^ e` for positive `m`, the fraction rounded to sixteen bits
with ties to the even one; a fraction that rounds up to one is carried into the exponent. -/
def normalise (m : Nat) (e : Int) : Int × Nat :=
  let leading := m.log2
  let fraction := roundDiv ((m - 2 ^ leading) * 2 ^ fractionBits) (2 ^ leading)
  if fraction = 2 ^ fractionBits then (e + leading + 1, 0) else (e + leading, fraction)

def encode (x : Binary64) : Except WordError (BitVec 24) :=
  match x with
  | .nan | .infinite _ => .error (.unstorable x)
  | .finite negative m e =>
    if m = 0 then .ok 0
    else
      let (exponent, fraction) := normalise m e
      let field := exponent + bias
      if maxField < field then .error (.realTooLarge x)
      else if field < 1 then .ok 0
      else .ok (.ofNat 24 (negative.toNat * 2 ^ (23 : Nat) + field.toNat * 2 ^ fractionBits + fraction))

/-- The real that 24 bits stand for. A significand of seventeen bits is moved to the fifty-three bits
that binary64 has, so the value is exact. -/
def decode (bits : BitVec 24) : Binary64 :=
  let n := bits.toNat
  if n = 0 then .zero false
  else
    let field : Nat := n / 2 ^ fractionBits % 2 ^ (7 : Nat)
    let fraction : Nat := n % 2 ^ fractionBits
    .finite (n / 2 ^ (23 : Nat) == 1) ((2 ^ fractionBits + fraction) * 2 ^ (36 : Nat))
      ((field : Int) - bias - 52)

end StoredReal

/-! ## Words -/

inductive Datum where
  | number (value : Number)
  | text (value : String)
  deriving DecidableEq, Repr

def Datum.shown : Datum → String
  | .number value => value.text
  | .text value => Text.quoted value

namespace Word

def zero : Word := ⟨.integer, 0⟩

def ofInteger (n : Int) : Except WordError Word :=
  (⟨.integer, ·⟩) <$> StoredInteger.encode n

def ofReal (x : Binary64) : Except WordError Word :=
  (⟨.real, ·⟩) <$> StoredReal.encode x

/-- An integer word for an integer, a real word for a real. -/
def ofNumber : Number → Except WordError Word
  | .integer n => ofInteger n
  | .real x => ofReal x

def packText (text : List Char) (offset : Int) : Except WordError (BitVec 24) :=
  if Charset.charsPerWord < text.length then .error (.tooLong text.length)
  else
    match Charset.unsupported? text offset with
    | some e => .error (.charset e)
    | none => .ok (Charset.pack text)

def ofText (text : String) : Except WordError Word :=
  (⟨.text, ·⟩) <$> packText text.toList 0

def ofRaw (tag : Tag) (bits : Int) : Except WordError Word :=
  if 0 ≤ bits ∧ bits < 2 ^ (24 : Nat) then .ok ⟨tag, .ofInt 24 bits⟩ else .error (.rawBits bits)

/-- A word from bits and the two halves of its tag: whether it is data, and the format of the data. -/
def ofParts (isData : Bool) (bits : Int) (format : Option Tag) : Except WordError Word :=
  match isData, format with
  | true, some tag => ofRaw tag bits
  | false, none => ofRaw .instruction bits
  | true, none => do
    let _ ← ofRaw .instruction bits
    throw .missingFormat
  | false, some tag => do
    let _ ← ofRaw tag bits
    throw .strayFormat

def withBits (w : Word) (bits : BitVec 24) : Word :=
  { w with bits }

def isInstruction (w : Word) : Bool :=
  w.tag == .instruction

def isNumeric (w : Word) : Bool :=
  w.tag == .integer || w.tag == .real

def number (w : Word) : Except WordError Number :=
  match w.tag with
  | .integer => .ok (.integer (StoredInteger.decode w.bits))
  | .real => .ok (.real (StoredReal.decode w.bits))
  | .text | .instruction => .error (.mismatch "numeric data" w.tag.describe)

def datum (w : Word) : Except WordError Datum :=
  match w.tag with
  | .integer => .ok (.number (.integer (StoredInteger.decode w.bits)))
  | .real => .ok (.number (.real (StoredReal.decode w.bits)))
  | .text => (Charset.unpack w.bits 0).mapError .charset |>.map .text
  | .instruction => .error (.mismatch "data" w.tag.describe)

def textBits (w : Word) : Except WordError (BitVec 24) :=
  if w.tag = .text then .ok w.bits else .error (.mismatch "string data" w.tag.describe)

def octal (w : Word) : String :=
  Text.octalPadded 8 w.bits.toNat

end Word

namespace Charset

/-- The text as words of four characters; the last word is filled with null characters. -/
def encode (text : String) : Except CharsetError (List Word) :=
  match unsupported? text.toList 0 with
  | some e => .error e
  | none => .ok ((chunks text.toList).map fun chunk => ⟨.text, pack chunk⟩)

/-- The characters of a list of text words, `offset` being the position of the first one. -/
def decodeWords (words : List Word) (offset : Int) : Except WordError (List Char) :=
  match words with
  | [] => .ok []
  | w :: rest => do
    let bits ← w.textBits
    let here ← (decodeCodes (codes bits) offset).mapError .charset
    return here ++ (← decodeWords rest (offset + charsPerWord))

/-- The text of a list of text words. Only the end of the whole text is padding, so null characters
inside it stay. -/
def decode (words : List Word) : Except WordError String :=
  (fun text => String.ofList (dropPadding text)) <$> decodeWords words 0

end Charset

end WordMachine
