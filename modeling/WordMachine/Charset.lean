import WordMachine.Text.Padded
import WordMachine.Text.Quoted
/-!
The character set of the machine. Each supported character has a code of six bits, and four codes make
one word of text, the first character in the highest bits. Code 0 stands for the null character, which
also fills the last word of a text. Five codes, 30, 31, 53, 55 and 63, stand for no character.
-/
namespace WordMachine

-- Powers are those of the core library, also where another library has its own.
attribute [local instance (high)] instPowNat

inductive CharsetError where
  /-- A character outside the set, at a position of its text. -/
  | unsupported (character : String) (position : Int)
  /-- A code that stands for no character, at the position that character would have. -/
  | unmapped (code : Int) (position : Int)
  deriving DecidableEq, Repr

def CharsetError.message : CharsetError → String
  | .unsupported character position =>
    s!"character {Text.quoted character} at position {position} is not in the character set"
  | .unmapped code position =>
    s!"code {Text.octalPadded 2 code} at position {position} has no character"

namespace Charset

def charsPerWord : Nat := 4

/-- The characters that are neither letters nor digits, with their codes. -/
def symbols : List (Char × Nat) :=
  [('\x00', 0), ('\'', 27), ('<', 28), ('>', 29), ('.', 42), ('@', 43), ('+', 44), ('-', 45), ('(', 46),
   (')', 47), ('[', 48), (']', 49), ('*', 50), ('/', 51), ('=', 52), ('^', 54), ('?', 56), ('"', 57),
   (':', 58), (';', 59), (',', 60), (' ', 61), ('\n', 62)]

/-- The code of a character: 1 to 26 for the capital letters, 32 to 41 for the digits, and the codes of
the symbols. -/
def code? (c : Char) : Option Nat :=
  if 'A' ≤ c ∧ c ≤ 'Z' then some (c.toNat - 'A'.toNat + 1)
  else if '0' ≤ c ∧ c ≤ '9' then some (c.toNat - '0'.toNat + 32)
  else symbols.lookup c

def char? (code : Nat) : Option Char :=
  if 1 ≤ code ∧ code ≤ 26 then some (Char.ofNat (code - 1 + 'A'.toNat))
  else if 32 ≤ code ∧ code ≤ 41 then some (Char.ofNat (code - 32 + '0'.toNat))
  else (symbols.find? (·.2 == code)).map (·.1)

def supports (c : Char) : Bool :=
  (code? c).isSome

/-- The first character outside the set, with its position counted from `offset`. -/
def unsupported? (text : List Char) (offset : Int) : Option CharsetError :=
  match text with
  | [] => none
  | c :: rest =>
    if supports c then unsupported? rest (offset + 1) else some (.unsupported c.toString offset)

/-- The codes of a list of supported characters, the first character highest. -/
def packCodes (text : List Char) : Nat :=
  text.foldl (fun bits c => bits * 64 + (code? c).getD 0) 0

/-- The word of at most four supported characters, filled with null characters. -/
def pack (text : List Char) : BitVec 24 :=
  .ofNat 24 (packCodes (text ++ List.replicate (charsPerWord - text.length) '\x00'))

/-- The four codes of a word, the highest first. -/
def codes (bits : BitVec 24) : List Nat :=
  let n := bits.toNat
  [n / 64 ^ (3 : Nat) % 64, n / 64 ^ (2 : Nat) % 64, n / 64 % 64, n % 64]

/-- The characters of a list of codes; a code without a character is reported with its position counted
from `offset`. -/
def decodeCodes (codes : List Nat) (offset : Int) : Except CharsetError (List Char) :=
  match codes with
  | [] => .ok []
  | code :: rest =>
    match char? code with
    | none => .error (.unmapped code offset)
    | some c => (c :: ·) <$> decodeCodes rest (offset + 1)

/-- The characters without the null characters at their end. -/
def dropPadding (text : List Char) : List Char :=
  (text.reverse.dropWhile (· == '\x00')).reverse

/-- The text of one word, without its padding. -/
def unpack (bits : BitVec 24) (offset : Int) : Except CharsetError String :=
  (fun text => String.ofList (dropPadding text)) <$> decodeCodes (codes bits) offset

/-- The text in pieces of four characters; the last one may be shorter. -/
def chunks (text : List Char) : List (List Char) :=
  if text.length ≤ charsPerWord then (if text.isEmpty then [] else [text])
  else text.take charsPerWord :: chunks (text.drop charsPerWord)
termination_by text.length
decreasing_by simp_all [charsPerWord]; omega

end Charset

end WordMachine
