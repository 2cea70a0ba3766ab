import WordMachine.Source.Line
/-!
Assembled programs: words at their locations, the literal table, the labels, and what a listing needs.
-/
namespace WordMachine

open Source

/-- A program word: its location, and the number of the line it comes from. -/
structure AssembledWord where
  location : Int
  word : Word
  lineNumber : Int
  deriving DecidableEq, Repr

/-- What a listing shows of one source line. -/
structure ListingLine where
  number : Int
  text : String
  /-- The locations that the line fills. -/
  locations : List Int := []
  /-- The words at these locations. -/
  words : List Word := []
  label : Option String := none
  /-- Why the line could not be read, if it could not. -/
  error : Option String := none
  deriving DecidableEq, Repr

structure Assembly where
  /-- The location of the first word, unless a line gives another. -/
  origin : Int
  /-- The program words, in the order of their locations. -/
  words : List AssembledWord
  /-- The literal table, in the order of allocation: from the top of memory downwards. -/
  literals : List (Int × Word)
  /-- The location of each label, in the order of definition. -/
  labels : List (String × Int)
  listing : List ListingLine
  file : String
  deriving Repr

namespace Assembly

/-- The lowest location of an instruction, where a run starts. -/
def entry (a : Assembly) : Option Int :=
  ((a.words.filter (·.word.isInstruction)).map (·.location)).min?

/-- Every word to load, with its location. -/
def image (a : Assembly) : List (Int × Word) :=
  a.literals ++ a.words.map fun w => (w.location, w.word)

def locationOf? (a : Assembly) (label : String) : Option Int :=
  a.labels.lookup label

/-- A program word in a disassembly: location, octal digits, and the instruction or the datum. -/
def disassemblyLine (w : AssembledWord) : Except WordError String := do
  let shown ←
    if w.word.isInstruction then (·.text) <$> Instruction.decode w.word
    else (·.shown) <$> w.word.datum
  return s!"{Text.locationText w.location}  {w.word.octal}  {shown}"

def disassembly (a : Assembly) : Except WordError (List String) :=
  a.words.mapM disassemblyLine

end Assembly

end WordMachine
